import ClientGen.Proofs.Document.Json.RoundTrip
import ClientGen.Proofs.Enumeration.Canonical

/-!
# Signatures are faithful

A signature is a JSON text that lists the values it was made from. No two lists of JSON
values have one signature unless they hold the same values, and the values are read from
the signature again, each of them once. Signing what was read gives the signature back, so
the values of a definition lead to the name that it was filed under.

Main results:

* `signature_faithful` — signatures compare values, list them and are signed again as themselves.
-/

namespace ClientGen.Enumeration

open ClientGen.Api ClientGen.Document ClientGen.Document.Json

-- ---------------------------------------------------------------------------
-- The same values
-- ---------------------------------------------------------------------------

/-- The two lists hold the same values, in whatever order and however often. -/
def SameValues (vs ws : List Value) : Prop :=
  (∀ v ∈ vs, ∃ w ∈ ws, Same v w) ∧ ∀ w ∈ ws, ∃ v ∈ vs, Same v w

/-- The items are the distinct values of the list: JSON values, each of them once and no others. -/
structure DistinctOf (vs items : List Value) : Prop where
  json : ∀ v ∈ items, IsJson v
  values : SameValues vs items
  once : items.Pairwise fun v w => ¬Same v w

/-- The texts that a signature lists. -/
def sortedTexts (vs : List Value) : List String := (vs.map written).eraseDups.mergeSort (· ≤ ·)

variable {vs ws : List Value}

theorem canonicalText_written {v : Value} (h : IsJson v) : canonicalText v = .ok (written v) := by
  rw [canonicalText, canonical?_written h]

/-- JSON values have a signature. -/
theorem signature_json (hvs : ∀ v ∈ vs, IsJson v) :
    signature vs = .ok ("[" ++ ",".intercalate (sortedTexts vs) ++ "]") := by
  have hTexts : vs.mapM canonicalText = .ok (vs.map written) := by
    induction vs with
    | nil => rfl
    | cons v vs ih =>
      obtain ⟨hHead, hRest⟩ := List.forall_mem_cons.mp hvs
      rw [List.mapM_cons, canonicalText_written hHead, ih hRest]
      rfl
  unfold signature
  rw [hTexts, ok_bind]
  rfl

theorem mem_sortedTexts {text : String} : text ∈ sortedTexts vs ↔ ∃ v ∈ vs, written v = text := by
  rw [sortedTexts, List.mem_mergeSort, List.mem_eraseDups, List.mem_map]

theorem sortedTexts_eq_iff :
    sortedTexts vs = sortedTexts ws ↔ ∀ text, text ∈ sortedTexts vs ↔ text ∈ sortedTexts ws := by
  constructor
  · intro h text
    rw [h]
  · intro h
    refine eraseDups_mergeSort_eq string_linear (fun _ _ => trivial) ?_
    intro text
    have hText := h text
    rwa [mem_sortedTexts, mem_sortedTexts, ← List.mem_map, ← List.mem_map] at hText

/-- The texts are those of the same values. -/
theorem sortedTexts_eq_iff_same (hvs : ∀ v ∈ vs, IsJson v) (hws : ∀ w ∈ ws, IsJson w) :
    sortedTexts vs = sortedTexts ws ↔ SameValues vs ws := by
  rw [sortedTexts_eq_iff]
  simp only [mem_sortedTexts]
  constructor
  · intro h
    refine ⟨?_, ?_⟩
    · intro v hv
      obtain ⟨w, hw, hText⟩ := (h (written v)).mp ⟨v, hv, rfl⟩
      exact ⟨w, hw, (written_eq_iff (hvs v hv) (hws w hw)).mp hText.symm⟩
    · intro w hw
      obtain ⟨v, hv, hText⟩ := (h (written w)).mpr ⟨w, hw, rfl⟩
      exact ⟨v, hv, (written_eq_iff (hvs v hv) (hws w hw)).mp hText⟩
  · rintro ⟨hSub, hSup⟩ text
    constructor
    · rintro ⟨v, hv, rfl⟩
      obtain ⟨w, hw, hSame⟩ := hSub v hv
      exact ⟨w, hw, ((written_eq_iff (hvs v hv) (hws w hw)).mpr hSame).symm⟩
    · rintro ⟨w, hw, rfl⟩
      obtain ⟨v, hv, hSame⟩ := hSup w hw
      exact ⟨v, hv, (written_eq_iff (hvs v hv) (hws w hw)).mpr hSame⟩

-- ---------------------------------------------------------------------------
-- What a signature lists
-- ---------------------------------------------------------------------------

/-- Each text of a signature is that of one of the values. -/
theorem exists_items (hvs : ∀ v ∈ vs, IsJson v) :
    ∃ items : List Value, (∀ w ∈ items, IsJson w) ∧ items.map written = sortedTexts vs := by
  have hLift : ∀ texts : List String, (∀ text ∈ texts, ∃ v ∈ vs, written v = text) →
      ∃ items : List Value, (∀ w ∈ items, IsJson w) ∧ items.map written = texts := by
    intro texts
    induction texts with
    | nil => exact fun _ => ⟨[], nofun, rfl⟩
    | cons text texts ih =>
      intro h
      obtain ⟨⟨v, hv, hText⟩, hRest⟩ := List.forall_mem_cons.mp h
      obtain ⟨items, hItems, hTexts⟩ := ih hRest
      refine ⟨v :: items, List.forall_mem_cons.mpr ⟨hvs v hv, hItems⟩, ?_⟩
      rw [List.map_cons, hText, hTexts]
  exact hLift _ fun text hText => mem_sortedTexts.mp hText

/-- A signature is read as the distinct values that it was made from. -/
theorem parse_signature (hvs : ∀ v ∈ vs, IsJson v) :
    ∃ items, Json.parse ("[" ++ ",".intercalate (sortedTexts vs) ++ "]") = .ok (.list items) ∧
      DistinctOf vs items ∧ sortedTexts items = sortedTexts vs := by
  obtain ⟨items, hItems, hTexts⟩ := exists_items hvs
  have hJson : ∀ v ∈ items.map arranged, IsJson v := by
    intro v hv
    obtain ⟨w, hw, rfl⟩ := List.mem_map.mp hv
    exact (hItems w hw).arranged
  have hArranged : (items.map arranged).map written = sortedTexts vs := by
    rw [← hTexts, List.map_map]
    exact List.map_congr_left fun w hw => written_arranged (hItems w hw)
  have hSorted : sortedTexts vs = sortedTexts (items.map arranged) := by
    rw [sortedTexts_eq_iff]
    intro text
    rw [← hArranged, List.mem_map]
    exact mem_sortedTexts.symm
  refine ⟨items.map arranged, by rw [← hTexts, parse_joined hItems], ⟨hJson, ?_, ?_⟩, hSorted.symm⟩
  · exact (sortedTexts_eq_iff_same hvs hJson).mp hSorted
  · have hNodup : (sortedTexts vs).Nodup :=
      (List.mergeSort_perm _ _).nodup_iff.mpr (nodup_eraseDups _)
    rw [← hArranged, List.nodup_iff_pairwise_ne, List.pairwise_map] at hNodup
    refine hNodup.imp_of_mem ?_
    intro v w hv hw hDiffer hSame
    exact hDiffer ((written_eq_iff (hJson v hv) (hJson w hw)).mpr hSame)

theorem joined_injective (hvs : ∀ v ∈ vs, IsJson v) (hws : ∀ w ∈ ws, IsJson w)
    (h : "[" ++ ",".intercalate (sortedTexts vs) ++ "]" =
      "[" ++ ",".intercalate (sortedTexts ws) ++ "]") :
    sortedTexts vs = sortedTexts ws := by
  obtain ⟨items, hParse, -, hItems⟩ := parse_signature hvs
  obtain ⟨items', hParse', -, hItems'⟩ := parse_signature hws
  rw [h, hParse'] at hParse
  cases hParse
  rw [← hItems, hItems']

-- ---------------------------------------------------------------------------
-- Names of definitions
-- ---------------------------------------------------------------------------

/-- The values of a definition lead to its name, if they are signed again as they were. -/
theorem nameOf?_definition {tables : Tables} {s : Specification} {r : Registry} {d : Definition}
    (hCollect : (collect tables s).outcome = .ok r) (hd : d ∈ r.definitions.values)
    (hSigned : signature (signedValues d.signature) = .ok d.signature) :
    r.nameOf? d.values = .ok (some d.name) := by
  obtain ⟨found, -, hRun, hDefinitions, -⟩ := exists_of_collect_ok hCollect
  have hNames := names_of_assignNames_ok hRun
  rw [hNames.definitions_eq hDefinitions] at hd
  obtain ⟨entry, hEntry, rfl⟩ := List.mem_map.mp hd
  obtain ⟨hName, hSignature⟩ := mem_definitionEntries hNames hEntry
  have hValues : entry.2.values = signedValues entry.2.signature := by
    obtain ⟨e, -, rfl⟩ := List.mem_map.mp hEntry
    rfl
  rw [Registry.nameOf?, hValues, hSigned, ok_bind, hSignature, hName]
  rfl

/--
**Signatures are faithful.** JSON values have a signature. Two lists have the same signature exactly
when they hold the same values, apart from order, repetition and the order of names in objects. The
signature is a JSON text of a list with each of the values once and no others, and this list has the
same signature again. So the values of a definition lead to its name.
-/
theorem signature_faithful (hvs : ∀ v ∈ vs, IsJson v) (hws : ∀ w ∈ ws, IsJson w) :
    (signature vs = signature ws ↔ SameValues vs ws) ∧
    (∃ sig items, signature vs = .ok sig ∧ Json.parse sig = .ok (.list items) ∧ DistinctOf vs items ∧
      signature items = .ok sig) ∧
    ∀ tables s r d, (collect tables s).outcome = .ok r → d ∈ r.definitions.values →
      signature vs = .ok d.signature → r.nameOf? d.values = .ok (some d.name) := by
  obtain ⟨items, hParse, hDistinct, hTexts⟩ := parse_signature hvs
  have hAgain : signature items = .ok ("[" ++ ",".intercalate (sortedTexts vs) ++ "]") := by
    rw [signature_json hDistinct.json, hTexts]
  refine ⟨?_, ⟨_, items, signature_json hvs, hParse, hDistinct, hAgain⟩, ?_⟩
  · rw [signature_json hvs, signature_json hws, ← sortedTexts_eq_iff_same hvs hws]
    constructor
    · intro h
      exact joined_injective hvs hws (Except.ok.inj h)
    · intro h
      rw [h]
  · intro tables s r d hCollect hd hSignature
    rw [signature_json hvs] at hSignature
    refine nameOf?_definition hCollect hd ?_
    rw [← Except.ok.inj hSignature, signedValues, hParse]
    exact hAgain

-- ---------------------------------------------------------------------------
-- Values that look alike
-- ---------------------------------------------------------------------------

/-- Four values that are written with the same letter or count as the same number. -/
def lookalikes : List Value := [.int 1, .float (.ofInt 1), .bool true, .str "1"]

/-- A list whose text has commas, quotes and brackets in it. -/
def punctuation : Value := .list [.null, .str "\x22, \x22", .str "]"]

theorem isJson_punctuation : IsJson punctuation := by
  refine .list ?_
  simp only [List.forall_mem_cons]
  exact ⟨.null, .str _, .str _, nofun⟩

/-- An object with such names and values, with its names in either order. -/
def nested (swapped : Bool) : Value :=
  let listed := (Value.str "a, b", punctuation)
  let braced := (Value.str "\x7b", Value.str "\x7d")
  .map (if swapped then [braced, listed] else [listed, braced])

theorem isJson_nested (swapped : Bool) : IsJson (nested swapped) := by
  cases swapped with
  | true =>
    refine .map (by decide +kernel) (by decide) ?_
    simp only [if_true, List.forall_mem_cons]
    exact ⟨.str _, isJson_punctuation, nofun⟩
  | false =>
    refine .map (by decide +kernel) (by decide) ?_
    simp only [Bool.false_eq_true, if_false, List.forall_mem_cons]
    exact ⟨isJson_punctuation, .str _, nofun⟩

theorem same_nested : Same (nested false) (nested true) := by
  have hDiffer : (Value.str "\x7b") ≠ .str "a, b" := fun h => absurd (Value.str.inj h) (by decide)
  refine .map ?_ ?_
  · intro k
    simp [Dictionary.keys, or_comm]
  · intro e he f hf hName
    simp only [Bool.false_eq_true, if_false, if_true, List.mem_cons, List.not_mem_nil, or_false] at he hf
    rcases he with rfl | rfl <;> rcases hf with rfl | rfl
    · exact absurd hName.symm hDiffer
    · exact same_refl isJson_punctuation
    · exact same_refl (.str _)
    · exact absurd hName hDiffer

theorem isJson_lookalikes : ∀ v ∈ lookalikes, IsJson v := by
  intro v hv
  simp only [lookalikes, List.mem_cons, List.not_mem_nil, or_false] at hv
  rcases hv with rfl | rfl | rfl | rfl
  · exact .int 1
  · exact .float _
  · exact .bool true
  · exact .str "1"

/-- The four values and an object have one signature in whatever order and however often they come,
and no two of the four are the same. A definition of two texts is found by its values. -/
theorem signature_lookalikes :
    (∃ sig items, signature (nested false :: lookalikes) = .ok sig ∧
      signature (.int 1 :: lookalikes.reverse ++ [nested true]) = .ok sig ∧
      Json.parse sig = .ok (.list items) ∧ DistinctOf (nested false :: lookalikes) items ∧
      lookalikes.Pairwise fun v w => ¬Same v w) ∧
    ∃ s r d, (Specification.ofDocument {} choiceDocument).outcome = .ok s ∧
      (collect {} s).outcome = .ok r ∧ d ∈ r.definitions.values ∧
      signature [.str "on", .str "off"] = .ok d.signature ∧
      r.nameOf? d.values = .ok (some d.name) := by
  constructor
  · have hLeft : ∀ v ∈ nested false :: lookalikes, IsJson v :=
      List.forall_mem_cons.mpr ⟨isJson_nested false, isJson_lookalikes⟩
    have hRight : ∀ v ∈ .int 1 :: lookalikes.reverse ++ [nested true], IsJson v := by
      intro v hv
      rcases List.mem_append.mp hv with hv | hv
      · rcases List.mem_cons.mp hv with rfl | hv
        · exact .int 1
        · exact isJson_lookalikes v (List.mem_reverse.mp hv)
      · rw [List.mem_singleton.mp hv]
        exact isJson_nested true
    obtain ⟨hCompare, ⟨sig, items, hSigned, hParse, hDistinct, -⟩, -⟩ := signature_faithful hLeft hRight
    refine ⟨sig, items, hSigned, ?_, hParse, hDistinct, ?_⟩
    · rw [← hSigned, eq_comm, hCompare]
      refine ⟨?_, ?_⟩
      · intro v hv
        rcases List.mem_cons.mp hv with rfl | hv
        · exact ⟨nested true, by simp, same_nested⟩
        · exact ⟨v, by simp [hv], same_refl (isJson_lookalikes v hv)⟩
      · intro w hw
        rcases List.mem_append.mp hw with hw | hw
        · have hw : w ∈ lookalikes := by
            rcases List.mem_cons.mp hw with rfl | hw
            · exact List.mem_cons_self
            · exact List.mem_reverse.mp hw
          exact ⟨w, List.mem_cons_of_mem _ hw, same_refl (isJson_lookalikes w hw)⟩
        · rw [List.mem_singleton.mp hw]
          exact ⟨nested false, List.mem_cons_self, same_nested⟩
    · have hScalar : ∀ v ∈ lookalikes, v.canBeKey = true := by decide
      have hDiffer : lookalikes.Pairwise (· ≠ ·) := by simp [lookalikes]
      refine hDiffer.imp_of_mem ?_
      intro v w hv _ hNe hSame
      exact hNe (hSame.eq_of_scalar (hScalar v hv))
  · obtain ⟨s, e, hSpecification, hEndpoints, hSchemas, hAll⟩ := exists_ofDocument_places
    obtain ⟨r, hCollect⟩ := exists_collect_choice hEndpoints hSchemas hAll
    obtain ⟨found, hFound, hRun, hDefinitions, -⟩ := exists_of_collect_ok hCollect
    have hNames := names_of_assignNames_ok hRun
    have he : e ∈ s.endpoints := by rw [hEndpoints]; exact List.mem_cons_self
    have hPlace : choicePlaces[0] ∈ e.allParameters := by
      rw [hAll]
      exact List.mem_cons_self
    obtain ⟨o, ho, -, hSigned⟩ := exists_occurrence hFound he hPlace rfl
    obtain ⟨name, hName⟩ := hNames.exists_get?_iff.mpr ⟨o, ho, rfl⟩
    obtain ⟨d, hGet, -, hOwn⟩ := hNames.get?_eq_some_iff_defined.mp hName
    obtain ⟨entry, hEntry, -, rfl⟩ := Dictionary.exists_of_get? hGet
    have hTexts : ∀ v ∈ [Value.str "on", .str "off"], IsJson v := by
      simp only [List.forall_mem_cons]
      exact ⟨.str _, .str _, nofun⟩
    have hd : entry.2 ∈ r.definitions.values := by
      rw [hNames.definitions_eq hDefinitions]
      exact List.mem_map_of_mem hEntry
    rw [← hOwn] at hSigned
    exact ⟨s, r, entry.2, hSpecification, hCollect, hd, hSigned,
      (signature_faithful hTexts hTexts).2.2 _ _ _ _ hCollect hd hSigned⟩

end ClientGen.Enumeration
