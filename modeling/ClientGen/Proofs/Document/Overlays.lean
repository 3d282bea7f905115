import ClientGen.Proofs.Document.SteadyKeys
import ClientGen.Proofs.FirstOccurrences

/-!
# Laying mappings over each other

A mapping is overlaid by putting the entries of another one, one after the other. A key that
is there keeps its place and takes the later value, a new one goes to the end. So it does
not matter whether mappings are laid over a first one in turn or over each other before.
This holds as long as the keys are steady, and all scalars are.

Main results:

* `steady_of_canBeKey` — scalars are steady keys.
* `overlay_overlay` / `overlay_ofEntries` — overlays can be grouped at will.
* `keys_ofEntries` / `get?_ofEntries` — what entries make up: their keys at the first
  occurrences, with the last values.
-/

namespace ClientGen.Document

open ClientGen.Document.Value

-- ---------------------------------------------------------------------------
-- Scalars as keys
-- ---------------------------------------------------------------------------

namespace Value

/-- What is compared by equality is a steady key. -/
theorem steady_of_exact {k : Value} (h : ∀ v : Value, (v == k) = true ↔ v = k)
    (h' : ∀ v : Value, (k == v) = true ↔ k = v) : Steady k where
  congr := by
    intro a b hSame
    rw [Bool.eq_iff_iff, h, h]
    constructor
    · rintro rfl
      exact ((h' b).mp hSame).symm
    · rintro rfl
      exact (h a).mp hSame
  joins := by
    intro a b ha hb
    rw [(h a).mp ha, (h b).mp hb]
    exact (h k).mpr rfl

/-- So is a finite number: what is the same amounts to the same. -/
theorem steady_of_inUnits? {k : Value} {u : Int} (hk : inUnits? k = some u) : Steady k where
  congr := by
    have hIff : ∀ v : Value, (v == k) = true ↔ inUnits? v = some u := fun v =>
      ⟨fun h => (inUnits?_eq_of_beq h).trans hk, fun h => beq_of_inUnits? h hk⟩
    intro a b hSame
    rw [Bool.eq_iff_iff, hIff, hIff, inUnits?_eq_of_beq hSame]
  joins := by
    intro a b ha hb
    exact beq_of_inUnits? ((inUnits?_eq_of_beq ha).trans hk) ((inUnits?_eq_of_beq hb).trans hk)

theorem same_moment {v : Value} {m : Moment} :
    same v (.moment m) = true ↔
      ∃ n, v = .moment n ∧ n.zone.isSome = m.zone.isSome ∧ n.instant = m.instant := by
  cases v <;> simp [same, sameScalar]

theorem moment_same {v : Value} {m : Moment} :
    same (.moment m) v = true ↔
      ∃ n, v = .moment n ∧ m.zone.isSome = n.zone.isSome ∧ m.instant = n.instant := by
  cases v <;> simp [same, sameScalar]

/-- Moments are the same if they are the same point in time. -/
theorem steady_moment (m : Moment) : Steady (.moment m) where
  congr := by
    intro a b hSame
    show same a (.moment m) = same b (.moment m)
    rw [Bool.eq_iff_iff, same_moment, same_moment]
    constructor
    · rintro ⟨n, rfl, hZone, hInstant⟩
      obtain ⟨n', rfl, hZone', hInstant'⟩ := moment_same.mp hSame
      exact ⟨n', rfl, hZone'.symm.trans hZone, hInstant'.symm.trans hInstant⟩
    · rintro ⟨n, rfl, hZone, hInstant⟩
      obtain ⟨n', rfl, hZone', hInstant'⟩ := same_moment.mp hSame
      exact ⟨n', rfl, hZone'.trans hZone, hInstant'.trans hInstant⟩
  joins := by
    intro a b ha hb
    obtain ⟨n, rfl, hZone, hInstant⟩ := same_moment.mp ha
    obtain ⟨n', rfl, hZone', hInstant'⟩ := same_moment.mp hb
    exact same_moment.mpr ⟨n, rfl, hZone.trans hZone'.symm, hInstant.trans hInstant'.symm⟩

/-- Nothing is the same as what is no number. -/
theorem same_nan (v : Value) : same v (.float .nan) = false := by
  cases v with
  | float x => cases x <;> simp [same, sameScalar, Double.numEq]
  | _ => simp [same, sameScalar, Double.isInt]

theorem steady_nan : Steady (.float .nan) where
  congr := by
    intro a b _
    show same a (.float .nan) = same b (.float .nan)
    rw [same_nan, same_nan]
  joins := by
    intro a b ha _
    exact absurd (same_nan a) (by rw [show same a (.float .nan) = true from ha]; simp)

/-- Scalars are steady keys. -/
theorem steady_of_canBeKey {k : Value} (h : k.canBeKey = true) : Steady k := by
  cases k with
  | str s => exact steady_str s
  | int n => exact steady_int n
  | bool b => exact steady_of_inUnits? rfl
  | moment m => exact steady_moment m
  | float x =>
    cases x with
    | finite negative m => exact steady_of_inUnits? rfl
    | nan => exact steady_nan
    | infinite negative =>
      refine steady_of_exact ?_ ?_
      · intro v
        show same v _ = true ↔ _
        cases v with
        | float x => cases x <;> simp [same, sameScalar, Double.numEq]
        | _ => simp [same, sameScalar, Double.isInt]
      · intro v
        show same _ v = true ↔ _
        cases v with
        | float x => cases x <;> simp [same, sameScalar, Double.numEq]
        | _ => simp [same, sameScalar, Double.isInt]
  | null | date _ | bytes _ =>
    refine steady_of_exact ?_ ?_
    · intro v
      show same v _ = true ↔ _
      cases v <;> simp [same, sameScalar]
    · intro v
      show same _ v = true ↔ _
      cases v <;> simp [same, sameScalar]
  | _ => cases h

end Value

-- ---------------------------------------------------------------------------
-- Putting and overlaying
-- ---------------------------------------------------------------------------

section Overlays

variable {d d' top : Entries} {k k' v w : Value}

/-- What is put under the same key later replaces what was put before. -/
theorem put_put (hSteady : Steady k) (h : (k' == k) = true) :
    Dictionary.put (Dictionary.put d k' v) k w = Dictionary.put d k' w := by
  induction d with
  | nil => simp only [Dictionary.put, if_pos h]
  | cons e es ih =>
    obtain ⟨a, u⟩ := e
    rw [Dictionary.put]
    split
    · rename_i hHere
      rw [Dictionary.put, if_pos ((hSteady.congr hHere).trans h), Dictionary.put, if_pos hHere]
    · rename_i hOther
      have hKey : (a == k) ≠ true := fun hKey => hOther (hSteady.joins hKey h)
      rw [Dictionary.put, if_neg hKey, ih, Dictionary.put, if_neg hOther]

/-- What is put under a key that is there can be put before what goes under other keys. -/
theorem put_comm (hSteady : Steady k) (h : (k' == k) = false)
    (hThere : (Dictionary.get? d k).isSome = true) :
    Dictionary.put (Dictionary.put d k' v) k w = Dictionary.put (Dictionary.put d k w) k' v := by
  induction d with
  | nil => cases hThere
  | cons e es ih =>
    obtain ⟨a, u⟩ := e
    rw [Dictionary.get?] at hThere
    by_cases hHere : (a == k') = true
    · have hKey : (a == k) ≠ true := by rw [hSteady.congr hHere, h]; exact Bool.false_ne_true
      simp only [Dictionary.put, if_pos hHere, if_neg hKey]
    · by_cases hKey : (a == k) = true
      · simp only [Dictionary.put, if_neg hHere, if_pos hKey]
      · rw [if_neg hKey] at hThere
        simp only [Dictionary.put, if_neg hHere, if_neg hKey, ih hThere]

/-- It can be put before entries with other keys are laid over the dictionary. -/
theorem put_overlay (hSteady : Steady k) (hOther : ∀ e ∈ top, (e.1 == k) = false)
    (hThere : (Dictionary.get? d k).isSome = true) :
    Dictionary.put (Dictionary.overlay d top) k w = Dictionary.overlay (Dictionary.put d k w) top := by
  unfold Dictionary.overlay
  induction top generalizing d with
  | nil => rfl
  | cons e es ih =>
    obtain ⟨hHead, hRest⟩ := List.forall_mem_cons.mp hOther
    have hStill : (Dictionary.get? (Dictionary.put d e.1 e.2) k).isSome = true := by
      rw [get?_put_of_not_beq hSteady hHead]
      exact hThere
    rw [List.foldl_cons, ih hRest hStill, put_comm hSteady hHead hThere, List.foldl_cons]

/-- What is put into a dictionary before it is laid over another one can be put afterwards. -/
theorem overlay_put (hSteady : Steady k) (hDistinct : Dictionary.Distinct top) :
    Dictionary.overlay d (Dictionary.put top k w) = Dictionary.put (Dictionary.overlay d top) k w := by
  induction top generalizing d with
  | nil => rfl
  | cons e es ih =>
    obtain ⟨a, u⟩ := e
    obtain ⟨hHead, hRest⟩ := List.pairwise_cons.mp hDistinct
    have hFirst : ∀ u es, Dictionary.overlay d ((a, u) :: es) =
        Dictionary.overlay (Dictionary.put d a u) es := fun _ _ => rfl
    rw [Dictionary.put]
    split
    · rename_i hHere
      -- no later key is the same, and this one is there once it was put
      have hOther : ∀ f ∈ es, (f.1 == k) = false := by
        intro f hf
        rw [← Bool.not_eq_true]
        intro hKey
        exact absurd (hSteady.joins hHere hKey) (by rw [hHead f hf]; exact Bool.false_ne_true)
      have hThere : (Dictionary.get? (Dictionary.put d a u) k).isSome = true := by
        rw [get?_put_of_beq hSteady hHere]
        rfl
      rw [hFirst, hFirst, put_overlay hSteady hOther hThere, put_put hSteady hHere]
    · rw [hFirst, hFirst, ih hRest]

/-- **Overlays can be grouped at will.** -/
theorem overlay_overlay (hSteady : ∀ e ∈ top, Steady e.1) (hDistinct : Dictionary.Distinct d') :
    Dictionary.overlay d (Dictionary.overlay d' top) =
      Dictionary.overlay (Dictionary.overlay d d') top := by
  induction top generalizing d' with
  | nil => rfl
  | cons e es ih =>
    obtain ⟨hHead, hRest⟩ := List.forall_mem_cons.mp hSteady
    show Dictionary.overlay d (Dictionary.overlay (Dictionary.put d' e.1 e.2) es) =
      Dictionary.overlay (Dictionary.put (Dictionary.overlay d d') e.1 e.2) es
    rw [ih hRest (Dictionary.put_distinct e.1 e.2 hDistinct), overlay_put hHead hDistinct]

/-- Entries can be made into a dictionary before they are laid over another one. -/
theorem overlay_ofEntries (hSteady : ∀ e ∈ top, Steady e.1) :
    Dictionary.overlay d (Dictionary.ofEntries top) = Dictionary.overlay d top :=
  overlay_overlay hSteady List.Pairwise.nil

/-- A key that is put is added to the keys if it is new. -/
theorem keys_put_eq_addNew (d : Entries) (k v : Value) :
    (Dictionary.put d k v).keys = addNew id d.keys k := by
  by_cases hThere : ∃ e ∈ d, (e.1 == k) = true
  · obtain ⟨e, he, hKey⟩ := hThere
    have hAny : d.keys.any (fun a => id a == id k) = true :=
      List.any_eq_true.mpr ⟨e.1, List.mem_map_of_mem he, hKey⟩
    rw [addNew, if_pos hAny]
    rcases Dictionary.keys_put d k v with hSame | ⟨-, hFresh⟩
    · exact hSame
    · exact absurd hKey (by rw [hFresh e he]; exact Bool.false_ne_true)
  · have hFresh : ∀ e ∈ d, (e.1 == k) = false := by simpa using hThere
    have hNone : ¬ d.keys.any (fun a => id a == id k) = true := by
      rw [List.any_eq_true]
      rintro ⟨a, ha, hKey⟩
      obtain ⟨e, he, rfl⟩ := List.mem_map.mp ha
      exact hThere ⟨e, he, hKey⟩
    rw [addNew, if_neg hNone, Dictionary.put_of_fresh hFresh, Dictionary.keys_append]
    rfl

/-- The keys of what entries make up are theirs at their first occurrences. -/
theorem keys_ofEntries (entries : Entries) :
    (Dictionary.ofEntries entries).keys = firstsBy id entries.keys := by
  have hAdded : ∀ d : Entries, (Dictionary.overlay d entries).keys =
      entries.keys.foldl (addNew id) d.keys := by
    unfold Dictionary.overlay
    induction entries with
    | nil => exact fun _ => rfl
    | cons e es ih =>
      intro d
      rw [List.foldl_cons, ih, keys_put_eq_addNew]
      rfl
  rw [Dictionary.ofEntries, hAdded]
  exact foldl_firstsBy [] entries.keys

/-- The last of the entries with a key has the value. -/
theorem get?_ofEntries (hSteady : Steady k) (entries : Entries) :
    Dictionary.get? (Dictionary.ofEntries entries) k =
      (entries.reverse.find? (·.1 == k)).map (·.2) := by
  induction entries using List.reverseRecOn with
  | nil => rfl
  | append_singleton es e ih =>
    have hLast : Dictionary.ofEntries (es ++ [e]) =
        Dictionary.put (Dictionary.ofEntries es) e.1 e.2 := List.foldl_append
    rw [hLast, List.reverse_append, List.reverse_singleton, List.singleton_append, List.find?_cons]
    cases hKey : e.1 == k with
    | true => exact get?_put_of_beq hSteady hKey
    | false =>
      rw [get?_put_of_not_beq hSteady hKey]
      exact ih

end Overlays

end ClientGen.Document
