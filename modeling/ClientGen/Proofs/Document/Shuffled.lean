import ClientGen.Proofs.Document.Members
import Mathlib.Data.List.Infix

/-!
# Documents in another order

The entries of a mapping can be put in another order, and nothing else in the document
notices: as long as no reference points to the mapping or to one around it, targets stay
the same. What references are expanded to may change all the same. A target is
remembered in the form it had when it was met first, and on a cycle that form depends on
which references were being expanded then. It does not if each cycle is a reference in
its own target; then every target has one expansion, and the entries of the expanded
mapping are in another order and otherwise the same.

Main results:

* `ShuffledAt.follow?_cases` — places of the document hold the same, but for those on the way to
  the mapping.
* `Expands.eq` — the same value is expanded to the same in both documents.
* `expand_shuffled` — documents that differ in the order of a mapping are expanded to such
  documents.
-/

namespace ClientGen.Document

open ClientGen.Schema ClientGen.Document.Value

variable {document document' : Value} {place : List String}

-- ---------------------------------------------------------------------------
-- Text keys in another order
-- ---------------------------------------------------------------------------

section TextKeys

variable {es es' : Entries}

theorem exact_of_isText (hTexts : ∀ e ∈ es, e.1.isText = true) : Dictionary.Exact es := by
  intro e he k
  have hText := hTexts e he
  cases hKey : e.1 with
  | str s => rw [str_beq, eq_comm]
  | _ =>
    rw [hKey] at hText
    cases hText

theorem distinct_perm (hTexts : ∀ e ∈ es, e.1.isText = true) (h : es.Perm es')
    (hDistinct : Dictionary.Distinct es) : Dictionary.Distinct es' := by
  have hExact := exact_of_isText hTexts
  have hApart : es.Pairwise fun e f => e.1 ≠ f.1 := by
    refine hDistinct.imp_of_mem ?_
    intro e f he _ hDiffer hSame
    rw [(hExact e he f.1).mpr hSame] at hDiffer
    cases hDiffer
  refine (h.pairwise hApart fun hDiffer => hDiffer.symm).imp_of_mem ?_
  intro e f he _ hDiffer
  rw [← Bool.not_eq_true, hExact e (h.mem_iff.mpr he)]
  exact hDiffer

end TextKeys

-- ---------------------------------------------------------------------------
-- Shuffled values
-- ---------------------------------------------------------------------------

/-- The values are the same, but for the order of the entries of a mapping with text keys, to
which these keys lead. -/
def ShuffledAt : List String → Value → Value → Prop
  | [], v, v' => ∃ es es', v = .map es ∧ v' = .map es' ∧ es.Perm es' ∧ ∀ e ∈ es, e.1.isText = true
  | key :: place, v, v' => ∃ es es', v = .map es ∧ v' = .map es' ∧
      Dictionary.Alongside (fun k w w' => w = w' ∨ k = .str key ∧ ShuffledAt place w w') es es'

namespace ShuffledAt

variable {v v' : Value} {key name ref : String}

theorem isMapping (h : ShuffledAt place v v') : v.isMapping = true ∧ v'.isMapping = true := by
  cases place with
  | nil =>
    obtain ⟨_, _, rfl, rfl, -⟩ := h
    exact ⟨rfl, rfl⟩
  | cons _ _ =>
    obtain ⟨_, _, rfl, rfl, -⟩ := h
    exact ⟨rfl, rfl⟩

theorem wellKeyed (h : ShuffledAt place v v') (hKeyed : v.wellKeyed = true) :
    v'.wellKeyed = true := by
  induction place generalizing v v' with
  | nil =>
    obtain ⟨es, es', rfl, rfl, hPerm, hTexts⟩ := h
    obtain ⟨hDistinct, hKeys⟩ := wellKeyed_map.mp hKeyed
    exact wellKeyed_map.mpr
      ⟨distinct_perm hTexts hPerm hDistinct, fun e he => hKeys e (hPerm.mem_iff.mpr he)⟩
  | cons key place ih =>
    obtain ⟨es, es', rfl, rfl, hAlong⟩ := h
    obtain ⟨hDistinct, hKeys⟩ := wellKeyed_map.mp hKeyed
    refine wellKeyed_map.mpr ⟨hAlong.distinct hDistinct, ?_⟩
    clear hKeyed hDistinct
    induction hAlong with
    | nil => exact fun e he => by cases he
    | cons head _ ihRest =>
      obtain ⟨hHead, hRest⟩ := List.forall_mem_cons.mp hKeys
      refine List.forall_mem_cons.mpr ⟨⟨head.1 ▸ hHead.1, ?_⟩, ihRest hRest⟩
      rcases head.2 with hSame | ⟨-, hShuffled⟩
      · exact hSame ▸ hHead.2
      · exact ih hShuffled hHead.2

theorem field?_eq_of_nil (h : ShuffledAt [] v v') (hKeyed : v.wellKeyed = true) (name : String) :
    v'.field? name = v.field? name := by
  obtain ⟨es, es', rfl, rfl, hPerm, hTexts⟩ := h
  have hDistinct := (wellKeyed_map.mp hKeyed).1
  exact ((exact_of_isText hTexts).get?_eq_of_perm hDistinct (distinct_perm hTexts hPerm hDistinct)
    hPerm _).symm

/-- The members of a value and its shuffled form are the same or shuffled themselves. -/
theorem field?_cases (h : ShuffledAt (key :: place) v v') (name : String) :
    v'.field? name = v.field? name ∨
      name = key ∧ ∃ w w', v.field? name = some w ∧ v'.field? name = some w' ∧
        ShuffledAt place w w' := by
  obtain ⟨es, es', rfl, rfl, hAlong⟩ := h
  rcases hAlong.get?_cases (k := .str name) with
    ⟨hNone, hNone'⟩ | ⟨k, w, w', hKey, hSome, hSome', hBoth⟩
  · exact Or.inl (hNone'.trans hNone.symm)
  · rcases hBoth with rfl | ⟨rfl, hShuffled⟩
    · exact Or.inl (hSome'.trans hSome.symm)
    · exact Or.inr ⟨(str.inj (str_beq.mp hKey)), w, w', hSome, hSome', hShuffled⟩

theorem field?_eq (h : ShuffledAt (key :: place) v v') (hName : name ≠ key) :
    v'.field? name = v.field? name :=
  (h.field?_cases name).resolve_right fun hBoth => hName hBoth.1

/-- Places of both values hold the same, but for those on the way. -/
theorem follow?_cases (h : ShuffledAt place v v') (hKeyed : v.wellKeyed = true) (keys : List String) :
    Pointer.follow? v' keys = Pointer.follow? v keys ∨
      ∃ rest u u', place = keys ++ rest ∧ Pointer.follow? v keys = some u ∧
        Pointer.follow? v' keys = some u' ∧ ShuffledAt rest u u' := by
  induction keys generalizing place v v' with
  | nil => exact Or.inr ⟨place, v, v', rfl, rfl, rfl, h⟩
  | cons k keys ih =>
    rw [Pointer.follow?, Pointer.follow?]
    cases place with
    | nil => exact Or.inl (by rw [h.field?_eq_of_nil hKeyed])
    | cons key place =>
      rcases h.field?_cases k with hSame | ⟨rfl, w, w', hSome, hSome', hShuffled⟩
      · exact Or.inl (by rw [hSame])
      · rw [hSome, hSome', Option.bind_some, Option.bind_some]
        rcases ih hShuffled (field?_wellKeyed hKeyed hSome) with hSame | ⟨rest, u, u', rfl, hBoth⟩
        · exact Or.inl hSame
        · exact Or.inr ⟨rest, u, u', rfl, hBoth⟩

theorem openRef?_eq (h : ShuffledAt place v v') (hKeyed : v.wellKeyed = true) :
    openRef? v' = openRef? v := by
  rw [openRef?, openRef?]
  cases place with
  | nil => rw [h.field?_eq_of_nil hKeyed]
  | cons key place =>
    rcases h.field?_cases refKey with hSame | ⟨-, w, w', hSome, hSome', hShuffled⟩
    · rw [hSame]
    · -- mappings are no pointers
      obtain ⟨hMap, hMap'⟩ := hShuffled.isMapping
      rw [hSome, hSome']
      cases w with
      | map _ =>
        cases w' with
        | map _ => rfl
        | _ => cases hMap'
      | _ => cases hMap

/-- The same references occur. -/
theorem mem_refsIn_iff (h : ShuffledAt place v v') (hKeyed : v.wellKeyed = true) :
    ref ∈ refsIn v' ↔ ref ∈ refsIn v := by
  induction place generalizing v v' with
  | nil =>
    have hOpen := h.openRef?_eq hKeyed
    obtain ⟨es, es', rfl, rfl, hPerm, -⟩ := h
    rw [mem_refsIn_map, mem_refsIn_map, hOpen]
    simp only [hPerm.mem_iff]
  | cons key place ih =>
    have hOpen := h.openRef?_eq hKeyed
    obtain ⟨es, es', rfl, rfl, hAlong⟩ := h
    have hKeys := (wellKeyed_map.mp hKeyed).2
    rw [mem_refsIn_map, mem_refsIn_map, hOpen]
    refine or_congr_right ?_
    clear hOpen hKeyed
    induction hAlong with
    | nil => rfl
    | cons head _ ihRest =>
      obtain ⟨hHead, hRest⟩ := List.forall_mem_cons.mp hKeys
      simp only [List.mem_cons, or_and_right, exists_or, exists_eq_left, ihRest hRest]
      refine or_congr_left ?_
      rcases head.2 with hSame | ⟨-, hShuffled⟩
      · rw [hSame]
      · exact ih hShuffled hHead.2

end ShuffledAt

-- ---------------------------------------------------------------------------
-- Targets
-- ---------------------------------------------------------------------------

/-- No reference points to the mapping at the place or to one around it, and none of them is a
reference. -/
structure Unseen (document : Value) (place : List String) : Prop where
  unreferenced : ∀ ref ∈ refsIn document, ∀ keys ∈ Pointer.keys? ref, ¬ keys <+: place
  plain : ∀ keys ∈ place.inits, (Pointer.follow? document keys).bind openRef? = none

theorem Unseen.openRef?_eq_none (h : Unseen document place) {keys : List String} {v : Value}
    (hPrefix : keys <+: place) (hFollow : Pointer.follow? document keys = some v) :
    openRef? v = none := by
  have hPlain := h.plain keys ((List.mem_inits keys place).mpr hPrefix)
  rwa [hFollow, Option.bind_some] at hPlain

theorem Unseen.resolve_eq (hUnseen : Unseen document place) (h : ShuffledAt place document document')
    (hKeyed : document.wellKeyed = true) : ∀ ref ∈ refsIn document,
      resolve document' ref = resolve document ref := by
  intro ref hRef
  rw [resolve, resolve]
  cases hKeys : Pointer.keys? ref with
  | none => rfl
  | some keys =>
    dsimp only
    rcases h.follow?_cases hKeyed keys with hSame | ⟨rest, _, _, rfl, -⟩
    · rw [hSame]
    · exact absurd (List.prefix_append _ _) (hUnseen.unreferenced ref hRef keys hKeys)

/-- What is unseen of a document is so when another part of it is in another order. -/
theorem Unseen.shuffled {place' : List String} (hUnseen : Unseen document place')
    (h : ShuffledAt place document document') (hKeyed : document.wellKeyed = true) :
    Unseen document' place' where
  unreferenced ref hRef := hUnseen.unreferenced ref ((h.mem_refsIn_iff hKeyed).mp hRef)
  plain keys hPrefix := by
    rcases h.follow?_cases hKeyed keys with hSame | ⟨rest, u, u', -, hSome, hSome', hShuffled⟩
    · rw [hSame]
      exact hUnseen.plain keys hPrefix
    · have hPlain := hUnseen.plain keys hPrefix
      rw [hSome] at hPlain
      rw [hSome', Option.bind_some, hShuffled.openRef?_eq ((follow?_within hSome).wellKeyed hKeyed)]
      exact hPlain

/-- Documents with the same references and targets have the same cycles. -/
theorem LoopsOnly.of_sameTargets (hLoops : LoopsOnly document)
    (hRefs : ∀ ref, ref ∈ refsIn document' ↔ ref ∈ refsIn document)
    (hTargets : ∀ ref ∈ refsIn document, resolve document' ref = resolve document ref) :
    LoopsOnly document' := by
  have hStep : ∀ {a b : String}, a ∈ refsIn document → Refers document' a b →
      b ∈ refsIn document ∧ Refers document a b := by
    intro a b ha hab
    refine ⟨(hRefs b).mp hab.mem_refsIn, ?_⟩
    rwa [Refers, refsFrom, hTargets a ha] at hab
  have hPaths : ∀ {a b : String}, a ∈ refsIn document → Relation.TransGen (Refers document') a b →
      b ∈ refsIn document ∧ Relation.TransGen (Refers document) a b := by
    intro a b ha hPath
    induction hPath with
    | single hFirst =>
      obtain ⟨hMem, hFirst⟩ := hStep ha hFirst
      exact ⟨hMem, .single hFirst⟩
    | tail _ hLast ih =>
      obtain ⟨hMem, hPath⟩ := ih
      obtain ⟨hMem, hLast⟩ := hStep hMem hLast
      exact ⟨hMem, hPath.tail hLast⟩
  intro ref ref' hThere hBack
  obtain ⟨_, -, hLast⟩ := Relation.TransGen.tail'_iff.mp hBack
  obtain ⟨hRef', hThere⟩ := hPaths ((hRefs ref).mp hLast.mem_refsIn) hThere
  exact hLoops ref ref' hThere (hPaths hRef' hBack).2

/-- The references of the first document have the same targets in the second, and in both of
them each cycle has one reference only. -/
structure Agree (document document' : Value) : Prop where
  targets : ∀ ref ∈ refsIn document, resolve document' ref = resolve document ref
  loops   : LoopsOnly document
  loops'  : LoopsOnly document'

theorem Unseen.agree (hUnseen : Unseen document place) (h : ShuffledAt place document document')
    (hKeyed : document.wellKeyed = true) (hLoops : LoopsOnly document) :
    Agree document document' where
  targets := hUnseen.resolve_eq h hKeyed
  loops := hLoops
  loops' := hLoops.of_sameTargets (fun _ => h.mem_refsIn_iff hKeyed) (hUnseen.resolve_eq h hKeyed)

-- ---------------------------------------------------------------------------
-- Expansions
-- ---------------------------------------------------------------------------

/-- A reference that has a target and is not inside it is not left in place. -/
theorem LoopsOnly.not_open (hLoops : LoopsOnly document) {inside : Option String} {ref : String}
    {target : Value} (hOutside : inside ≠ some ref) (hTarget : resolve document ref = .ok target) :
    ¬ (MissingSchema document ref ∨ Recurs document inside ref) := by
  rintro (⟨-, fault, hFault⟩ | hRecurs)
  · rw [hTarget] at hFault
    cases hFault
  · exact hOutside (hLoops.eq_of_recurs hRecurs)

mutual

/-- Parts of the first document are expanded to the same in both. -/
theorem Expands.eq (hAgree : Agree document document') {inside : Option String}
    {place place' : String} {v w w' : Value} {o : Except Fault Value} :
    Expands document inside place v o → Within v document → o = .ok w →
      Expands document' inside place' v (.ok w') → w' = w
  | .scalar hList hMap, _, hOk, h' => by
    cases hOk
    exact h'.scalar_eq hList hMap
  | .list hItems, hWithin, hOk, h' => by
    obtain ⟨ws, hDone, rfl⟩ := exists_of_map_ok hOk
    obtain ⟨ws', hItems', rfl⟩ := h'.list_cases
    rw [hItems.eq hAgree (fun _ => hWithin.of_item) hDone hItems']
  | .map hPlain hEntries, hWithin, hOk, h' => by
    obtain ⟨es, hDone, rfl⟩ := exists_of_map_ok hOk
    obtain ⟨-, es', hEntries', rfl⟩ | ⟨_, _, hRef, -⟩ := h'.map_cases
    · rw [hEntries.eq hAgree (fun _ => hWithin.of_entry) hDone hEntries']
    · rw [hPlain] at hRef
      cases hRef
  | .siblings _ _, _, hOk, _ => by cases hOk
  | .target hRef hOutside hSiblings hTarget h, hWithin, hOk, h' => by
    obtain ⟨x, hDone, rfl⟩ := exists_of_map_ok hOk
    have hMem := hWithin.refsIn_subset (openRef_mem_refsIn hRef)
    have hTarget' := (hAgree.targets _ hMem).trans hTarget
    obtain ⟨hPlain, -⟩ | ⟨ref, siblings', hRef', hSiblings', hWhat⟩ := h'.map_cases
    · rw [hRef] at hPlain
      cases hPlain
    · rw [hRef] at hRef'
      cases hRef'
      have hSame := hSiblings.eq hAgree (fun _ => hWithin.of_sibling) rfl hSiblings'
      obtain ⟨target', x', -, hFound, hExpands', rfl⟩ | ⟨hOpen, -⟩ := hWhat
      · cases hTarget'.symm.trans hFound
        rw [hSame, h.eq hAgree (resolve_within hTarget) hDone hExpands']
      · exact absurd hOpen (hAgree.loops'.not_open hOutside hTarget')
  | .leave hRef hSiblings hOpen, hWithin, hOk, h' => by
    cases hOk
    have hMem := hWithin.refsIn_subset (openRef_mem_refsIn hRef)
    obtain ⟨hPlain, -⟩ | ⟨ref, siblings', hRef', hSiblings', hWhat⟩ := h'.map_cases
    · rw [hRef] at hPlain
      cases hPlain
    · rw [hRef] at hRef'
      cases hRef'
      have hSame := hSiblings.eq hAgree (fun _ => hWithin.of_sibling) rfl hSiblings'
      obtain ⟨target', x', hOutside, hFound, -⟩ | ⟨-, rfl⟩ := hWhat
      · have hTarget := (hAgree.targets _ hMem).symm.trans hFound
        exact absurd hOpen (hAgree.loops.not_open hOutside hTarget)
      · rw [hSame]
  | .dangling _ _ _ _, _, hOk, _ => by cases hOk

theorem ItemsExpand.eq (hAgree : Agree document document') {inside : Option String}
    {place place' : String} {index index' : Nat} {vs ws ws' : List Value}
    {o : Except Fault (List Value)} :
    ItemsExpand document inside place index vs o → (∀ v ∈ vs, Within v document) → o = .ok ws →
      ItemsExpand document' inside place' index' vs (.ok ws') → ws' = ws
  | .nil, _, hOk, h' => by
    cases hOk
    cases h'
    rfl
  | .fail _, _, hOk, _ => by cases hOk
  | .cons head rest, hWithin, hOk, h' => by
    obtain ⟨ws, hDone, rfl⟩ := exists_of_map_ok hOk
    obtain ⟨hHead, hRest⟩ := List.forall_mem_cons.mp hWithin
    obtain ⟨w', ws', head', rest', rfl⟩ := h'.cons_cases
    rw [head.eq hAgree hHead rfl head', rest.eq hAgree hRest hDone rest']

theorem EntriesExpand.eq (hAgree : Agree document document') {inside : Option String}
    {place place' : String} {es fs fs' : Entries} {o : Except Fault Entries} :
    EntriesExpand document inside place es o → (∀ e ∈ es, Within e.2 document) → o = .ok fs →
      EntriesExpand document' inside place' es (.ok fs') → fs' = fs
  | .nil, _, hOk, h' => by
    cases hOk
    cases h'
    rfl
  | .fail _, _, hOk, _ => by cases hOk
  | .cons head rest, hWithin, hOk, h' => by
    obtain ⟨fs, hDone, rfl⟩ := exists_of_map_ok hOk
    obtain ⟨hHead, hRest⟩ := List.forall_mem_cons.mp hWithin
    obtain ⟨w', fs', head', rest', rfl⟩ := h'.cons_cases
    rw [head.eq hAgree hHead rfl head', rest.eq hAgree hRest hDone rest']

end

/-- Shuffled values are expanded to shuffled values. -/
theorem Expands.shuffledAt (hAgree : Agree document document') {v v' w w' : Value}
    (h : ShuffledAt place v v') (hKeyed : v.wellKeyed = true) (hWithin : Within v document)
    (hPlain : ∀ keys u, keys <+: place → Pointer.follow? v keys = some u → openRef? u = none)
    {inside : Option String} {at₁ at₂ : String} (hExpands : Expands document inside at₁ v (.ok w))
    (hExpands' : Expands document' inside at₂ v' (.ok w')) : ShuffledAt place w w' := by
  induction place generalizing v v' w w' at₁ at₂ with
  | nil =>
    have hOpen := hPlain [] v (List.prefix_refl _) rfl
    have hOpen' := (h.openRef?_eq hKeyed).trans hOpen
    obtain ⟨es, es', rfl, rfl, hPerm, hTexts⟩ := h
    obtain ⟨-, fs, hEntries, rfl⟩ | ⟨_, _, hRef, -⟩ := hExpands.map_cases
    · obtain ⟨-, fs', hEntries', rfl⟩ | ⟨_, _, hRef, -⟩ := hExpands'.map_cases
      · -- the first expansion in the order of the second entries
        obtain ⟨gs, hAlong, hOrder⟩ := (hEntries.alongside rfl).exists_perm hPerm
        have hSame : gs = fs' := by
          refine (hAlong.both (hEntries'.alongside rfl) ?_).eq
          rintro e he x y ⟨_, hx⟩ ⟨_, hy⟩
          exact (hx.eq hAgree (hWithin.of_entry (hPerm.mem_iff.mpr he)) rfl hy).symm
        refine ⟨fs, fs', rfl, rfl, hSame ▸ hOrder, ?_⟩
        intro f hf
        obtain ⟨e, he, hKey⟩ := List.mem_map.mp
          ((hEntries.alongside rfl).keys_eq ▸ List.mem_map_of_mem hf : f.1 ∈ Dictionary.keys es)
        exact hKey ▸ hTexts e he
      · rw [hOpen'] at hRef
        cases hRef
    · rw [hOpen] at hRef
      cases hRef
  | cons key place ih =>
    have hOpen := hPlain [] v List.nil_prefix rfl
    have hOpen' := (h.openRef?_eq hKeyed).trans hOpen
    obtain ⟨es, es', rfl, rfl, hShuffled⟩ := h
    obtain ⟨-, fs, hEntries, rfl⟩ | ⟨_, _, hRef, -⟩ := hExpands.map_cases
    · obtain ⟨-, fs', hEntries', rfl⟩ | ⟨_, _, hRef, -⟩ := hExpands'.map_cases
      · refine ⟨fs, fs', rfl, rfl, (hEntries.alongside rfl).both
          (hShuffled.comp (hEntries'.alongside rfl)) ?_⟩
        rintro e he x y ⟨_, hx⟩ ⟨u, hBoth, _, hy⟩
        rcases hBoth with rfl | ⟨hKey, hInner⟩
        · exact Or.inl (hx.eq hAgree (hWithin.of_entry he) rfl hy).symm
        · have hInnerKeyed := ((wellKeyed_map.mp hKeyed).2 e he).2
          refine Or.inr ⟨hKey, ih hInner hInnerKeyed (hWithin.of_entry he) ?_ hx hy⟩
          intro keys v hPrefix hFollow
          refine hPlain (key :: keys) v (List.cons_prefix_cons.mpr ⟨rfl, hPrefix⟩) ?_
          have hFound := Dictionary.get?_of_mem (wellKeyed_map.mp hKeyed).1 he
            (by rw [hKey]; exact beq_str.mpr rfl)
          rw [hKey] at hFound
          rw [Pointer.follow?, field?, hFound]
          exact hFollow
      · rw [hOpen'] at hRef
        cases hRef
    · rw [hOpen] at hRef
      cases hRef

/-- **Documents in another order.** A document whose cycles have one reference each, with an unseen
mapping in another order, can be expanded if it could be before, and in what it is expanded to the
mapping is in another order and nothing else has changed. -/
theorem expand_shuffled {expanded : Value} (h : ShuffledAt place document document')
    (hKeyed : document.wellKeyed = true) (hLoops : LoopsOnly document)
    (hUnseen : Unseen document place) (hExpanded : (expand document).outcome = .ok expanded) :
    ∃ expanded', (expand document').outcome = .ok expanded' ∧
      ShuffledAt place expanded expanded' := by
  have hAgree := hUnseen.agree h hKeyed hLoops
  have hSound := (exists_expand_ok_iff hKeyed).mp ⟨expanded, hExpanded⟩
  obtain ⟨expanded', hExpanded'⟩ : ∃ expanded', (expand document').outcome = .ok expanded' := by
    refine exists_expand_ok ?_
    rintro ref hRef ⟨hOther, fault, hFault⟩
    have hMem := (h.mem_refsIn_iff hKeyed).mp hRef
    exact hSound ref hMem ⟨hOther, fault, (hAgree.targets ref hMem).symm.trans hFault⟩
  exact ⟨expanded', hExpanded', Expands.shuffledAt hAgree h hKeyed (.refl document)
    (fun _ _ => hUnseen.openRef?_eq_none) (hExpanded ▸ expand_follows document)
    (hExpanded' ▸ expand_follows document')⟩

end ClientGen.Document
