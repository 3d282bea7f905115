import ClientGen.Proofs.Document.Expansion
import ClientGen.Proofs.Document.SteadyKeys

/-!
# Members of expanded mappings

A place of an expanded document comes from a node of the document: go down the same
keys, and where a reference is in the way, look among its siblings first and then in its
target. `Leads` says which node that is and `at?` what stands at the place after
expansion, if the references on the way were not left in place.

Main results:

* `expand_wellKeyed` — no mapping of an expanded document has a key twice.
* `Leads.expands` — what stands at a place is the expanded node that the keys lead to.
-/

namespace ClientGen.Document

open ClientGen.Schema ClientGen.Document.Value

variable {document : Value}

-- ---------------------------------------------------------------------------
-- Members of expansions
-- ---------------------------------------------------------------------------

/-- Expanding entries keeps their keys and expands their values. -/
theorem EntriesExpand.alongside {inside : Option String} {place : String} {es es' : Entries}
    {o : Except Fault Entries} :
    EntriesExpand document inside place es o → o = .ok es' →
      Dictionary.Alongside (fun _ v w => ∃ place', Expands document inside place' v (.ok w)) es es'
  | .nil, hOk => by
    cases hOk
    exact .nil
  | .fail _, hOk => by cases hOk
  | .cons head rest, hOk => by
    obtain ⟨rest', hRest, rfl⟩ := exists_of_map_ok hOk
    exact .cons ⟨rfl, _, head⟩ (rest.alongside hRest)

theorem EntriesExpand.get?_none {inside : Option String} {place : String} {es es' : Entries}
    {k : Value} (h : EntriesExpand document inside place es (.ok es')) (hNone : Dictionary.get? es k = none) :
    Dictionary.get? es' k = none :=
  (h.alongside rfl).get?_none hNone

/-- What is found after expansion is what was found before, expanded. -/
theorem EntriesExpand.get?_some {inside : Option String} {place : String} {es es' : Entries}
    {k v : Value} (h : EntriesExpand document inside place es (.ok es'))
    (hSome : Dictionary.get? es k = some v) :
    ∃ place' w, Dictionary.get? es' k = some w ∧ Expands document inside place' v (.ok w) := by
  obtain ⟨-, w, -, hFound, place', hExpands⟩ := (h.alongside rfl).get?_some hSome
  exact ⟨place', w, hFound, hExpands⟩

theorem EntriesExpand.exists_of_get? {inside : Option String} {place : String} {es es' : Entries}
    {k w : Value} (h : EntriesExpand document inside place es (.ok es'))
    (hSome : Dictionary.get? es' k = some w) :
    ∃ v, Dictionary.get? es k = some v ∧ ∃ place', Expands document inside place' v (.ok w) := by
  rcases (h.alongside rfl).get?_cases (k := k) with ⟨-, hNone⟩ | ⟨_, v, _, -, hFound, hSome', hBoth⟩
  · rw [hNone] at hSome
    cases hSome
  · cases hSome.symm.trans hSome'
    exact ⟨v, hFound, hBoth⟩

theorem Expands.scalar_eq {inside : Option String} {place : String} {v w : Value}
    (h : Expands document inside place v (.ok w)) (hList : ∀ items, v ≠ .list items)
    (hMap : ∀ entries, v ≠ .map entries) : w = v := by
  cases v with
  | list items => exact absurd rfl (hList items)
  | map entries => exact absurd rfl (hMap entries)
  | _ =>
    cases h
    rfl

theorem Expands.list_cases {inside : Option String} {place : String} {items : List Value}
    {w : Value} (h : Expands document inside place (.list items) (.ok w)) :
    ∃ ws, ItemsExpand document inside place 0 items (.ok ws) ∧ w = .list ws := by
  generalize hOk : Except.ok (ε := Fault) w = o at h
  generalize hThis : Value.list items = v at h
  cases h with
  | list hItems =>
    cases hThis
    obtain ⟨ws, rfl, rfl⟩ := exists_of_map_ok hOk.symm
    exact ⟨ws, hItems, rfl⟩
  | scalar hNoList => exact absurd hThis.symm (hNoList items)
  | _ => cases hThis

/-- What a mapping is expanded to: its entries expanded, or what its reference stands for. -/
theorem Expands.map_cases {inside : Option String} {place : String} {entries : Entries} {w : Value}
    (h : Expands document inside place (.map entries) (.ok w)) :
    (openRef? (.map entries) = none ∧
      ∃ es, EntriesExpand document inside place entries (.ok es) ∧ w = .map es) ∨
    ∃ ref siblings, openRef? (.map entries) = some ref ∧
      EntriesExpand document inside place (Dictionary.erase entries (.str refKey)) (.ok siblings) ∧
      ((∃ target x, inside ≠ some ref ∧ resolve document ref = .ok target ∧
          Expands document (some ref) ref target (.ok x) ∧
          w = withSiblings siblings (withOrigin ref x)) ∨
        (MissingSchema document ref ∨ Recurs document inside ref) ∧ w = openNode ref siblings) := by
  generalize hOk : Except.ok (ε := Fault) w = o at h
  generalize hMap : Value.map entries = v at h
  cases h with
  | scalar _ hNoMap => exact absurd hMap.symm (hNoMap entries)
  | list => cases hMap
  | map hPlain hEntries =>
    cases hMap
    obtain ⟨es, rfl, rfl⟩ := exists_of_map_ok hOk.symm
    exact Or.inl ⟨hPlain, es, hEntries, rfl⟩
  | siblings => cases hOk
  | target hRef hOutside hSiblings hTarget hExpands =>
    cases hMap
    obtain ⟨x, rfl, rfl⟩ := exists_of_map_ok hOk.symm
    exact Or.inr ⟨_, _, hRef, hSiblings, Or.inl ⟨_, x, hOutside, hTarget, hExpands, rfl⟩⟩
  | leave hRef hSiblings hOpen =>
    cases hMap
    cases hOk
    exact Or.inr ⟨_, _, hRef, hSiblings, Or.inr ⟨hOpen, rfl⟩⟩
  | dangling => cases hOk

theorem ItemsExpand.cons_cases {inside : Option String} {place : String} {index : Nat} {v : Value}
    {vs ws : List Value} (h : ItemsExpand document inside place index (v :: vs) (.ok ws)) :
    ∃ w rest, Expands document inside s!"{place}/{index}" v (.ok w) ∧
      ItemsExpand document inside place (index + 1) vs (.ok rest) ∧ ws = w :: rest := by
  generalize hOk : Except.ok (ε := Fault) ws = o at h
  cases h with
  | fail => cases hOk
  | cons head rest =>
    obtain ⟨rest', rfl, rfl⟩ := exists_of_map_ok hOk.symm
    exact ⟨_, rest', head, rest, rfl⟩

theorem EntriesExpand.cons_cases {inside : Option String} {place : String} {k v : Value}
    {es fs : Entries} (h : EntriesExpand document inside place ((k, v) :: es) (.ok fs)) :
    ∃ w rest, Expands document inside s!"{place}/{k.display}" v (.ok w) ∧
      EntriesExpand document inside place es (.ok rest) ∧ fs = (k, w) :: rest := by
  generalize hOk : Except.ok (ε := Fault) fs = o at h
  cases h with
  | fail => cases hOk
  | cons head rest =>
    obtain ⟨rest', rfl, rfl⟩ := exists_of_map_ok hOk.symm
    exact ⟨_, rest', head, rest, rfl⟩

/-- A text comes from a text or from a reference. -/
theorem Expands.eq_str {inside : Option String} {place : String} {v : Value} {s : String}
    (h : Expands document inside place v (.ok (.str s))) (hPlain : openRef? v = none) :
    v = .str s := by
  cases v with
  | list items =>
    obtain ⟨_, -, hSame⟩ := h.list_cases
    cases hSame
  | map entries =>
    obtain ⟨-, _, -, hSame⟩ | ⟨_, _, hRef, -⟩ := h.map_cases
    · cases hSame
    · rw [hPlain] at hRef
      cases hRef
  | _ => exact (h.scalar_eq nofun nofun).symm

-- ---------------------------------------------------------------------------
-- Keys of expansions
-- ---------------------------------------------------------------------------

theorem EntriesExpand.distinct {inside : Option String} {place : String} {es es' : Entries}
    {o : Except Fault Entries} (h : EntriesExpand document inside place es o) (hOk : o = .ok es')
    (hDistinct : Dictionary.Distinct es) : Dictionary.Distinct es' :=
  (h.alongside hOk).distinct hDistinct

theorem withOrigin_wellKeyed {ref : String} {v : Value} (h : v.wellKeyed = true) :
    (withOrigin ref v).wellKeyed = true := by
  cases v with
  | map entries =>
    obtain ⟨hDistinct, hKeyed⟩ := wellKeyed_map.mp h
    exact wellKeyed_map.mpr ⟨Dictionary.put_distinct _ _ hDistinct, hKeyed.put rfl rfl⟩
  | _ => exact h

theorem withSiblings_wellKeyed {siblings : Entries} {v : Value} (h : v.wellKeyed = true)
    (hSiblings : Keyed siblings) : (withSiblings siblings v).wellKeyed = true := by
  cases v with
  | map entries =>
    obtain ⟨hDistinct, hKeyed⟩ := wellKeyed_map.mp h
    exact wellKeyed_map.mpr ⟨Dictionary.overlay_distinct _ hDistinct, hKeyed.overlay hSiblings⟩
  | _ => exact h

/-- The siblings of a reference have keys, and their values are parts of the document. -/
theorem Within.siblings_keyed {entries : Entries} {k : Value} (hKeyed : document.wellKeyed = true)
    (h : Within (.map entries) document) :
    ∀ e ∈ Dictionary.erase entries k, e.1.canBeKey = true ∧ Within e.2 document := by
  intro e he
  have hKeys := (wellKeyed_map.mp (h.wellKeyed hKeyed)).2
  exact ⟨(hKeys e (List.mem_of_mem_filter he)).1, h.of_sibling he⟩

/-- A reference that is left in place is a mapping with nothing else, under its siblings. -/
theorem openNode_eq (ref : String) (siblings : Entries) :
    openNode ref siblings = withSiblings siblings (.map [(.str refKey, .str ref)]) :=
  rfl

mutual

/-- Parts of a well keyed document are expanded to well keyed values. -/
theorem Expands.wellKeyed (hKeyed : document.wellKeyed = true) {inside : Option String}
    {place : String} {v w : Value} {o : Except Fault Value} :
    Expands document inside place v o → Within v document → o = .ok w → w.wellKeyed = true
  | .scalar _ _, hWithin, hOk => by
    cases hOk
    exact hWithin.wellKeyed hKeyed
  | .list hItems, hWithin, hOk => by
    obtain ⟨items', hDone, rfl⟩ := exists_of_map_ok hOk
    exact wellKeyed_list.mpr (hItems.wellKeyed hKeyed (fun _ => hWithin.of_item) hDone)
  | .map _ hEntries, hWithin, hOk => by
    obtain ⟨entries', hDone, rfl⟩ := exists_of_map_ok hOk
    obtain ⟨hDistinct, hKeys⟩ := wellKeyed_map.mp (hWithin.wellKeyed hKeyed)
    exact wellKeyed_map.mpr ⟨hEntries.distinct hDone hDistinct,
      hEntries.keyed hKeyed (fun e he => ⟨(hKeys e he).1, hWithin.of_entry he⟩) hDone⟩
  | .siblings _ _, _, hOk => by cases hOk
  | .target _ _ hSiblings hTarget h, hWithin, hOk => by
    obtain ⟨x, hDone, rfl⟩ := exists_of_map_ok hOk
    have hWellKeyed := h.wellKeyed hKeyed (resolve_within hTarget) hDone
    exact withSiblings_wellKeyed (withOrigin_wellKeyed hWellKeyed)
      (hSiblings.keyed hKeyed (hWithin.siblings_keyed hKeyed) rfl)
  | .leave _ hSiblings _, hWithin, hOk => by
    cases hOk
    rw [openNode_eq]
    exact withSiblings_wellKeyed rfl (hSiblings.keyed hKeyed (hWithin.siblings_keyed hKeyed) rfl)
  | .dangling _ _ _ _, _, hOk => by cases hOk

theorem ItemsExpand.wellKeyed (hKeyed : document.wellKeyed = true) {inside : Option String}
    {place : String} {index : Nat} {items items' : List Value} {o : Except Fault (List Value)} :
    ItemsExpand document inside place index items o → (∀ v ∈ items, Within v document) →
      o = .ok items' → ∀ w ∈ items', w.wellKeyed = true
  | .nil, _, hOk => by
    cases hOk
    simp
  | .fail _, _, hOk => by cases hOk
  | .cons head rest, hWithin, hOk => by
    obtain ⟨ws, hDone, rfl⟩ := exists_of_map_ok hOk
    obtain ⟨hHead, hRest⟩ := List.forall_mem_cons.mp hWithin
    exact List.forall_mem_cons.mpr
      ⟨head.wellKeyed hKeyed hHead rfl, rest.wellKeyed hKeyed hRest hDone⟩

theorem EntriesExpand.keyed (hKeyed : document.wellKeyed = true) {inside : Option String}
    {place : String} {entries entries' : Entries} {o : Except Fault Entries} :
    EntriesExpand document inside place entries o →
      (∀ e ∈ entries, e.1.canBeKey = true ∧ Within e.2 document) → o = .ok entries' →
      Keyed entries'
  | .nil, _, hOk => by
    cases hOk
    exact fun _ he => by cases he
  | .fail _, _, hOk => by cases hOk
  | .cons head rest, hWithin, hOk => by
    obtain ⟨es', hDone, rfl⟩ := exists_of_map_ok hOk
    obtain ⟨hHead, hRest⟩ := List.forall_mem_cons.mp hWithin
    exact List.forall_mem_cons.mpr
      ⟨⟨hHead.1, head.wellKeyed hKeyed hHead.2 rfl⟩, rest.keyed hKeyed hRest hDone⟩

end

/-- Expansion keeps documents well keyed. -/
theorem expand_wellKeyed {expanded : Value} (hKeyed : document.wellKeyed = true)
    (h : (expand document).outcome = .ok expanded) : expanded.wellKeyed = true :=
  (expand_follows document).wellKeyed hKeyed (.refl document) h

-- ---------------------------------------------------------------------------
-- Places
-- ---------------------------------------------------------------------------

/-- The value that keys of any kind lead to through nested mappings. -/
def Value.at? (v : Value) : List Value → Option Value
  | [] => some v
  | k :: keys =>
    match v with
    | .map entries => (Dictionary.get? entries k).bind fun w => w.at? keys
    | _ => none

theorem Value.at?_map {entries : Entries} {k w v : Value} {keys : List Value}
    (hMember : Dictionary.get? entries k = some w) :
    (Value.map entries).at? (k :: keys) = some v ↔ w.at? keys = some v := by
  rw [Value.at?, hMember]
  rfl

theorem Value.at?_append (v : Value) (keys keys' : List Value) :
    v.at? (keys ++ keys') = (v.at? keys).bind fun w => w.at? keys' := by
  induction keys generalizing v with
  | nil => rfl
  | cons k keys ih =>
    cases v with
    | map entries =>
      show (Dictionary.get? entries k).bind _ = ((Dictionary.get? entries k).bind _).bind _
      rw [Option.bind_assoc]
      exact congrArg _ (funext fun w => ih w)
    | _ => rfl

/-- Only a mapping has members. -/
theorem Value.exists_of_at?_cons {v w k : Value} {keys : List Value}
    (h : v.at? (k :: keys) = some w) :
    ∃ entries member, v = .map entries ∧ Dictionary.get? entries k = some member ∧
      member.at? keys = some w := by
  cases v with
  | map entries =>
    obtain ⟨member, hMember, h⟩ := Option.bind_eq_some_iff.mp h
    exact ⟨entries, member, rfl, hMember, h⟩
  | _ => cases h

/-- From a node, the keys lead to another node of the document: through the members of mappings,
and at a reference through its siblings or, if they do not have the key, through its target. -/
inductive Leads (document : Value) : Value → List Value → Value → Prop
  | here (v : Value) : Leads document v [] v
  | member {entries : Entries} {k v w : Value} {keys : List Value}
      (hPlain : openRef? (.map entries) = none) (hMember : Dictionary.get? entries k = some v)
      (h : Leads document v keys w) : Leads document (.map entries) (k :: keys) w
  | sibling {entries : Entries} {ref : String} {k v w : Value} {keys : List Value}
      (hRef : openRef? (.map entries) = some ref) (hKey : k ≠ .str refKey)
      (hMember : Dictionary.get? entries k = some v) (h : Leads document v keys w) :
      Leads document (.map entries) (k :: keys) w
  | target {entries : Entries} {ref : String} {target k w : Value} {keys : List Value}
      (hRef : openRef? (.map entries) = some ref) (hNone : Dictionary.get? entries k = none)
      (hTarget : resolve document ref = .ok target) (h : Leads document target (k :: keys) w) :
      Leads document (.map entries) (k :: keys) w

/-- What stands at a place of the document is what the keys lead to. -/
theorem leads_of_at? {v w : Value} {keys : List Value} (hKeys : ∀ k ∈ keys, k ≠ .str refKey)
    (h : v.at? keys = some w) : Leads document v keys w := by
  induction keys generalizing v with
  | nil =>
    cases h
    exact .here w
  | cons k keys ih =>
    obtain ⟨entries, member, rfl, hMember, h⟩ := exists_of_at?_cons h
    obtain ⟨hHead, hRest⟩ := List.forall_mem_cons.mp hKeys
    cases hRef : openRef? (.map entries) with
    | none => exact .member hRef hMember (ih hRest h)
    | some ref => exact .sibling hRef hHead hMember (ih hRest h)

/-- Members are parts. -/
theorem Within.of_get? {entries : Entries} {k v w : Value} (h : Within (.map entries) w)
    (hMember : Dictionary.get? entries k = some v) : Within v w := by
  obtain ⟨e, he, -, rfl⟩ := Dictionary.exists_of_get? hMember
  exact h.of_entry he

/-- So is what stands at a place. -/
theorem within_of_at? {v w : Value} {keys : List Value} (h : v.at? keys = some w) : Within w v := by
  induction keys generalizing v with
  | nil =>
    cases h
    exact .refl w
  | cons k keys ih =>
    obtain ⟨entries, member, rfl, hMember, h⟩ := exists_of_at?_cons h
    exact (ih h).trans ((Within.refl _).of_get? hMember)

theorem Within.of_field? {v w u : Value} {name : String} (h : Within v w)
    (hMember : v.field? name = some u) : Within u w := by
  cases v with
  | map entries => exact h.of_get? hMember
  | _ => cases hMember

/-- The node that keys lead to is a part of the document. -/
theorem Leads.within {v w : Value} {keys : List Value} (h : Leads document v keys w)
    (hWithin : Within v document) : Within w document := by
  induction h with
  | here => exact hWithin
  | member _ hMember _ ih => exact ih (hWithin.of_get? hMember)
  | sibling _ _ hMember _ ih => exact ih (hWithin.of_get? hMember)
  | target _ _ hTarget _ ih => exact ih (resolve_within hTarget)

-- ---------------------------------------------------------------------------
-- Places of expanded documents
-- ---------------------------------------------------------------------------

section Laid

variable {siblings : Entries} {base k v w : Value} {keys : List Value}

/-- At a key of the siblings stands what they have there. -/
theorem at?_withSiblings_of_some (hSteady : Steady k) (hDistinct : Dictionary.Distinct siblings)
    (hMember : Dictionary.get? siblings k = some v)
    (h : (withSiblings siblings base).at? (k :: keys) = some w) : v.at? keys = some w := by
  cases base with
  | map entries => exact (at?_map (get?_overlay_of_some hSteady hDistinct hMember)).mp h
  | _ => cases h

/-- At any other key stands what they are laid over. -/
theorem at?_withSiblings_of_none (hSteady : Steady k) (hNone : Dictionary.get? siblings k = none)
    (h : (withSiblings siblings base).at? (k :: keys) = some w) : base.at? (k :: keys) = some w := by
  cases base with
  | map entries =>
    rw [withSiblings, Value.at?, get?_overlay_of_none hSteady hNone] at h
    exact h
  | _ => cases h

/-- The origin stands at a key of its own, and nothing stands below it. -/
theorem at?_withOrigin {ref : String} (hSteady : Steady k)
    (hLast : (k :: keys).getLast? ≠ some (.str originKey))
    (h : (withOrigin ref base).at? (k :: keys) = some w) : base.at? (k :: keys) = some w := by
  cases base with
  | map entries =>
    by_cases hKey : k = .str originKey
    · subst hKey
      have hOrigin : Dictionary.get? (Dictionary.put entries (.str originKey) (.str ref))
          (.str originKey) = some (.str ref) :=
        get?_put_of_beq (steady_str _) (beq_str.mpr rfl)
      rw [withOrigin, Value.at?, hOrigin] at h
      cases keys with
      | nil => exact absurd rfl hLast
      | cons _ _ => cases h
    · have hOther : (Value.str originKey == k) = false := by
        rw [← Bool.not_eq_true, str_beq]
        exact hKey
      rw [withOrigin, Value.at?, get?_put_of_not_beq hSteady hOther] at h
      exact h
  | _ => cases h

/-- A reference that was left in place has no members but its siblings. -/
theorem at?_openNode_of_none {ref : String} (hSteady : Steady k) (hKey : k ≠ .str refKey)
    (hNone : Dictionary.get? siblings k = none) :
    (openNode ref siblings).at? (k :: keys) = none := by
  rw [Option.eq_none_iff_forall_ne_some]
  intro w h
  rw [openNode_eq] at h
  obtain ⟨es, member, hEs, hMember, -⟩ :=
    exists_of_at?_cons (at?_withSiblings_of_none hSteady hNone h)
  cases hEs
  rw [Dictionary.get?] at hMember
  split at hMember
  · rename_i hSame
    exact hKey (str_beq.mp hSame)
  · cases hMember

end Laid

/-- The last one of keys is the last one after the first of them, unless there is only one. -/
theorem getLast?_tail {k l : Value} {keys : List Value} (h : (k :: keys).getLast? ≠ some l) :
    keys.getLast? ≠ some l := by
  cases keys with
  | nil => nofun
  | cons _ _ => rwa [List.getLast?_cons_cons] at h

/-- **Places of an expanded document.** What stands at a place after expansion is the expanded node that
the keys lead to, if it is not the place of an origin. -/
theorem Leads.expands (hKeyed : document.wellKeyed = true) {v n : Value} {keys : List Value}
    (h : Leads document v keys n) (hLast : keys.getLast? ≠ some (.str originKey))
    (hSteady : ∀ k ∈ keys, Steady k) (hWithin : Within v document)
    {inside : Option String} {place : String} {w s : Value}
    (hExpands : Expands document inside place v (.ok w)) (hPlace : w.at? keys = some s) :
    ∃ inside' place', Expands document inside' place' n (.ok s) := by
  induction h generalizing inside place w with
  | here =>
    cases hPlace
    exact ⟨inside, place, hExpands⟩
  | @member entries k v n keys hPlain hMember _ ih =>
    obtain ⟨-, es, hEntries, rfl⟩ | ⟨ref, -, hRef, -⟩ := hExpands.map_cases
    · obtain ⟨_, member', hMember', hExpands'⟩ := hEntries.get?_some hMember
      exact ih (getLast?_tail hLast) (fun k hk => hSteady k (List.mem_cons_of_mem _ hk))
        (hWithin.of_get? hMember) hExpands' ((at?_map hMember').mp hPlace)
    · rw [hPlain] at hRef
      cases hRef
  | @sibling entries ref k v n keys hRef hKey hMember _ ih =>
    obtain ⟨hPlain, -⟩ | ⟨ref', siblings, -, hSiblings, hWhat⟩ := hExpands.map_cases
    · rw [hPlain] at hRef
      cases hRef
    · rw [← get?_erase_of_ne hKey] at hMember
      obtain ⟨_, member', hMember', hExpands'⟩ := hSiblings.get?_some hMember
      have hDistinct : Dictionary.Distinct siblings :=
        hSiblings.distinct rfl
          ((wellKeyed_map.mp (hWithin.wellKeyed hKeyed)).1.sublist List.filter_sublist)
      obtain ⟨hHead, hRest⟩ := List.forall_mem_cons.mp hSteady
      rw [get?_erase_of_ne hKey] at hMember
      refine ih (getLast?_tail hLast) hRest (hWithin.of_get? hMember) hExpands' ?_
      obtain ⟨_, x, -, -, -, rfl⟩ | ⟨-, rfl⟩ := hWhat
      · exact at?_withSiblings_of_some hHead hDistinct hMember' hPlace
      · rw [openNode_eq] at hPlace
        exact at?_withSiblings_of_some hHead hDistinct hMember' hPlace
  | @target entries ref target k n keys hRef hNone hTarget h ih =>
    obtain ⟨hPlain, -⟩ | ⟨ref', siblings, hRef', hSiblings, hWhat⟩ := hExpands.map_cases
    · rw [hPlain] at hRef
      cases hRef
    · rw [hRef] at hRef'
      cases hRef'
      have hHead := hSteady k List.mem_cons_self
      have hKey : k ≠ .str refKey := by
        rintro rfl
        rw [openRef?_map, hNone] at hRef
        cases hRef
      rw [← get?_erase_of_ne hKey] at hNone
      have hNone' := hSiblings.get?_none hNone
      obtain ⟨target', x, -, hTarget', hExpands', rfl⟩ | ⟨-, rfl⟩ := hWhat
      · rw [hTarget] at hTarget'
        cases hTarget'
        exact ih hLast hSteady (resolve_within hTarget) hExpands'
          (at?_withOrigin hHead hLast (at?_withSiblings_of_none hHead hNone' hPlace))
      · rw [at?_openNode_of_none hHead hKey hNone'] at hPlace
        cases hPlace

end ClientGen.Document
