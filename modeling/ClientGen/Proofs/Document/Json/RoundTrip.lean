import ClientGen.Proofs.Dictionary
import ClientGen.Proofs.Document.Json.Arranged
import ClientGen.Proofs.Document.Json.Texts

/-!
# Values read back

The canonical text of a JSON value is read as the value again, with the names of its objects
in the order in which they were written. The induction is on the value: what a value is read
from ends where a separator or a bracket follows, so the values in a collection are read one
after the other, whatever the separator is.

Main results:

* `readsBack` — the canonical text of a JSON value is read as the arranged value.
* `written_eq_iff` — JSON values are written alike exactly when they are the same.
* `parse_joined` — a list of canonical texts is a JSON text of the list of the arranged values.
-/

namespace ClientGen.Document.Json

open ClientGen.Document.Value ClientGen.Text

-- ---------------------------------------------------------------------------
-- What is written
-- ---------------------------------------------------------------------------

/-- The canonical text of a value that has one. -/
def written (v : Value) : String := (canonical? v).getD ""

/-- The canonical text of a member of an object. -/
def writtenMember (e : Value × Value) : String := textLiteral (nameText e.1) ++ ": " ++ written e.2

theorem canonicalItems?_written {items : List Value}
    (h : ∀ v ∈ items, canonical? v = some (written v)) :
    canonicalItems? items = some (items.map written) := by
  induction items with
  | nil => rfl
  | cons v vs ih =>
    obtain ⟨hHead, hRest⟩ := List.forall_mem_cons.mp h
    rw [canonicalItems?, hHead, ih hRest]
    rfl

theorem canonicalEntries?_written {entries : Entries} (hNames : ∀ e ∈ entries, e.1.isText = true)
    (h : ∀ e ∈ entries, canonical? e.2 = some (written e.2)) :
    canonicalEntries? entries = some (entries.map fun e => (e.1, writtenMember e)) := by
  induction entries with
  | nil => rfl
  | cons e es ih =>
    obtain ⟨hHead, hRest⟩ := List.forall_mem_cons.mp h
    obtain ⟨hName, hNames⟩ := List.forall_mem_cons.mp hNames
    have hText : keyText? e.1 = some (nameText e.1) := by
      rw [eq_str_of_isText hName]
      rfl
    rw [canonicalEntries?, hText, hHead, ih hNames hRest]
    rfl

/-- A list is written item by item. -/
theorem canonical?_list {items : List Value} (h : ∀ v ∈ items, canonical? v = some (written v)) :
    canonical? (.list items) = some ("[" ++ ", ".intercalate (items.map written) ++ "]") := by
  rw [canonical?, canonicalItems?_written h]
  rfl

/-- An object is written member by member, in the order of the names. -/
theorem canonical?_map {entries : Entries} (hNames : ∀ e ∈ entries, e.1.isText = true)
    (h : ∀ e ∈ entries, canonical? e.2 = some (written e.2)) :
    canonical? (.map entries) =
      some ("\x7b" ++ ", ".intercalate ((entries.mergeSort nameLe).map writtenMember) ++ "\x7d") := by
  have hSorted : sortOn? (·.1) (entries.map fun e => (e.1, writtenMember e)) =
      some ((entries.mergeSort nameLe).map fun e => (e.1, writtenMember e)) := by
    rw [sortOn?_names, sort_map (f := fun e => (e.1, writtenMember e)) fun _ => rfl]
    intro x hx
    obtain ⟨e, he, rfl⟩ := List.mem_map.mp hx
    exact hNames e he
  rw [canonical?, canonicalEntries?_written hNames h]
  simp only [Option.bind_eq_bind, Option.bind_some, hSorted, List.map_map]
  rfl

theorem canonical?_of_some {v : Value} {text : String} (h : canonical? v = some text) :
    canonical? v = some (written v) := by
  rw [written, h]
  rfl

/-- Every JSON value has a canonical text. -/
theorem canonical?_written {v : Value} (hv : IsJson v) : canonical? v = some (written v) := by
  induction hv with
  | list _ ih => exact canonical?_of_some (canonical?_list ih)
  | map _ hNames _ ih => exact canonical?_of_some (canonical?_map hNames ih)
  | _ => rfl

theorem written_list {items : List Value} (h : ∀ v ∈ items, IsJson v) :
    written (.list items) = "[" ++ ", ".intercalate (items.map written) ++ "]" := by
  rw [written, canonical?_list fun v hv => canonical?_written (h v hv)]
  rfl

theorem written_map {entries : Entries} (h : IsJson (.map entries)) :
    written (.map entries) =
      "\x7b" ++ ", ".intercalate ((entries.mergeSort nameLe).map writtenMember) ++ "\x7d" := by
  cases h with
  | map _ hNames hValues =>
    rw [written, canonical?_map hNames fun e he => canonical?_written (hValues e he)]
    rfl

/-- A value is written like the arranged value. -/
theorem written_arranged {v : Value} (hv : IsJson v) : written (arranged v) = written v := by
  induction hv with
  | @list items hItems ih =>
    have hJson := (IsJson.list hItems).arranged
    rw [written_list hItems]
    rw [arranged, arrangedItems_eq] at hJson ⊢
    cases hJson with
    | list hArranged =>
      rw [written_list hArranged, List.map_map, List.map_congr_left (f := written ∘ arranged) ih]
  | @map entries hDistinct hNames hValues ih =>
    have hJson := IsJson.map hDistinct hNames hValues
    have hArranged := hJson.arranged
    have hNamed := (named_of_distinct hDistinct hNames).map (f := arrangedEntry) fun _ => rfl
    have hSorted := hNamed.sort_eq (List.mergeSort_perm _ nameLe).symm
    rw [written_map hJson]
    rw [arranged, arrangedEntries_eq] at hArranged ⊢
    rw [written_map hArranged, ← hSorted, sort_map (f := arrangedEntry) fun _ => rfl, List.map_map]
    have hMembers : ∀ e ∈ entries.mergeSort nameLe,
        writtenMember (arrangedEntry e) = writtenMember e := by
      intro e he
      rw [writtenMember, writtenMember, arrangedEntry, ih e (List.mem_mergeSort.mp he)]
    rw [List.map_congr_left (f := writtenMember ∘ arrangedEntry) hMembers]
  | _ => rfl

-- ---------------------------------------------------------------------------
-- What is read
-- ---------------------------------------------------------------------------

/-- The character starts a value that is no text and no collection. -/
def StartsScalar (c : Char) : Prop :=
  isJsonBlank c = false ∧ c ≠ doubleQuote ∧ c ≠ '[' ∧ c ≠ ']' ∧ c ≠ '\x7b' ∧ c ≠ '\x7d'

instance (c : Char) : Decidable (StartsScalar c) := inferInstanceAs (Decidable (_ ∧ _))

theorem startsScalar_of_isDigit {c : Char} (h : c.isDigit = true) : StartsScalar c := by
  have hBlank : isJsonBlank c = false := by
    rw [Bool.eq_false_iff]
    intro hBlank
    simp only [isJsonBlank, Bool.or_eq_true, beq_iff_eq] at hBlank
    rcases hBlank with ((rfl | rfl) | rfl) | rfl <;> cases h
  refine ⟨hBlank, ?_, ?_, ?_, ?_, ?_⟩ <;> rintro rfl <;> cases h

/-- The text of the value is read as the arranged value, wherever a value may end. It starts with a
character that starts a value. -/
structure ReadsBack (v : Value) : Prop where
  starts : ∃ c more, (written v).toList = c :: more ∧ isJsonBlank c = false ∧ c ≠ ']' ∧ c ≠ '\x7d'
  reads : ∀ rest, Ended rest → Reads (readValue ((written v).toList ++ rest)) (arranged v) rest

/-- What is no text and no collection is left to the reader of scalars. -/
theorem readsBack_scalar {v : Value} (hScalar : v.canBeKey = true) {c : Char} {more : List Char}
    (hText : (written v).toList = c :: more) (hStart : StartsScalar c)
    (hReads : ∀ rest, Ended rest → Reads (readScalar ((written v).toList ++ rest)) v rest) :
    ReadsBack v := by
  obtain ⟨hBlank, hQuote, hList, hEnd, hMap, hEnd'⟩ := hStart
  refine ⟨⟨c, more, hText, hBlank, hEnd, hEnd'⟩, ?_⟩
  intro rest hRest
  have hRead := hReads rest hRest
  rw [hText, List.cons_append] at hRead ⊢
  obtain ⟨hShorter, hRead⟩ := hRead
  have hQuote : (c == '\x22') = false := beq_eq_false_iff_ne.mpr hQuote
  have hList : (c == '[') = false := beq_eq_false_iff_ne.mpr hList
  have hMap : (c == '\x7b') = false := beq_eq_false_iff_ne.mpr hMap
  rw [arranged_scalar hScalar]
  refine ⟨hShorter, ?_⟩
  rw [readValue.eq_def]
  simp only [hQuote, hList, hMap, hRead, Bool.false_eq_true, if_false]

theorem readsBack_word {w : String × Value} (hw : w ∈ words) (hText : written w.2 = w.1) :
    ReadsBack w.2 := by
  have hScalar : ∀ u ∈ words.map (·.2), u.canBeKey = true := by decide
  have hStart : ∀ u ∈ words.map (·.1), (u.toList.head?.any (StartsScalar ·)) = true := by decide
  obtain ⟨c, hc, hStart⟩ := (Option.any_eq_true _ _).mp (hStart w.1 (List.mem_map_of_mem hw))
  obtain ⟨more, hCons⟩ := List.head?_eq_some_iff.mp hc
  refine readsBack_scalar (hScalar _ (List.mem_map_of_mem hw)) (by rw [hText, hCons])
    (of_decide_eq_true hStart) ?_
  intro rest _
  rw [hText]
  exact reads_word hw rest

theorem readsBack_number {v : Value} (hScalar : v.canBeKey = true) (h : IsNumber (written v) v) :
    ReadsBack v := by
  obtain ⟨negative, c, more, hText, hDigit⟩ := h.starts
  have hReads : ∀ rest, Ended rest → Reads (readScalar ((written v).toList ++ rest)) v rest :=
    fun rest hRest => h.reads hRest
  cases negative with
  | false => exact readsBack_scalar hScalar hText (startsScalar_of_isDigit hDigit) hReads
  | true => exact readsBack_scalar hScalar hText (by decide) hReads

theorem readsBack_float (x : Double) : ReadsBack (.float x) := by
  cases x with
  | finite negative m => exact readsBack_number rfl (isNumber_finite spelling negative m)
  | infinite negative =>
    cases negative with
    | true => exact readsBack_word (w := ("-Infinity", .float (.infinite true))) (by simp [words]) rfl
    | false => exact readsBack_word (w := ("Infinity", .float (.infinite false))) (by simp [words]) rfl
  | nan => exact readsBack_word (w := ("NaN", .float .nan)) (by simp [words]) rfl

theorem readsBack_bool (b : Bool) : ReadsBack (.bool b) := by
  cases b with
  | true => exact readsBack_word (w := ("true", .bool true)) (by simp [words]) rfl
  | false => exact readsBack_word (w := ("false", .bool false)) (by simp [words]) rfl

/-- A text in quotes is read from its opening quote on. -/
theorem reads_quoted (start : List Char) (s : String) (rest : List Char) :
    ∃ cs, (textLiteral s).toList ++ rest = doubleQuote :: cs ∧
      Reads (readText start cs) s.toList rest := by
  refine ⟨s.toList.flatMap textChar ++ doubleQuote :: rest, ?_, reads_text start s.toList rest⟩
  rw [toList_textLiteral]
  simp

theorem readsBack_str (s : String) : ReadsBack (.str s) := by
  refine ⟨⟨_, _, toList_textLiteral s, by decide, by decide, by decide⟩, ?_⟩
  intro rest _
  obtain ⟨cs, hText, hShorter, hRead⟩ := reads_quoted ((textLiteral s).toList ++ rest) s rest
  show Reads (readValue ((textLiteral s).toList ++ rest)) (.str s) rest
  rw [hText] at hRead ⊢
  refine ⟨Nat.lt_succ_of_lt hShorter, ?_⟩
  have hQuote : (doubleQuote == '\x22') = true := rfl
  rw [readValue.eq_def]
  simp only [hQuote, if_true, hRead, ok_bind, String.ofList_toList]
  rfl

-- ---------------------------------------------------------------------------
-- Collections
-- ---------------------------------------------------------------------------

section Collections

variable {cs after rest left : List Char} {v : Value}

theorem reads_emptyList (rest : List Char) :
    Reads (readValue ('[' :: ']' :: rest)) (.list []) rest := by
  refine ⟨by simp only [List.length_cons]; omega, ?_⟩
  rw [readValue.eq_def]
  rfl

theorem reads_list {items : List Value} (hEnd : ∀ after, skipBlanks cs ≠ ']' :: after)
    (h : Reads (readItems (skipBlanks cs)) items rest) :
    Reads (readValue ('[' :: cs)) (.list items) rest := by
  obtain ⟨hShorter, hRead⟩ := h
  have hBlanks := skipBlanks_length_le cs
  refine ⟨by simp only [List.length_cons]; omega, ?_⟩
  have hQuote : ('[' == '\x22') = false := by decide
  rw [readValue.eq_def]
  simp only [hQuote, Bool.false_eq_true, if_false, beq_self_eq_true, if_true, hRead, ok_bind]
  rfl

theorem reads_last (h : Reads (readValue cs) v (']' :: rest)) : Reads (readItems cs) [v] rest := by
  obtain ⟨hShorter, hRead⟩ := h
  refine ⟨Nat.lt_of_succ_lt hShorter, ?_⟩
  rw [readItems.eq_def]
  simp only [hRead, ok_bind]
  rfl

theorem reads_more {items : List Value} (h : Reads (readValue cs) v (',' :: after))
    (hMore : Reads (readItems (skipBlanks after)) items rest) :
    Reads (readItems cs) (v :: items) rest := by
  obtain ⟨hShorter, hRead⟩ := h
  obtain ⟨hShorter', hRead'⟩ := hMore
  have hBlanks := skipBlanks_length_le after
  refine ⟨by simp only [List.length_cons] at hShorter; omega, ?_⟩
  rw [readItems.eq_def]
  simp only [hRead, ok_bind]
  split
  · rename_i hNone
    cases hNone
  · rename_i hHere
    obtain ⟨rfl, rfl⟩ := List.cons.inj hHere
    have hEnd : (',' == ']') = false := by decide
    simp only [hEnd, Bool.false_eq_true, if_false, beq_self_eq_true, if_true, hRead', ok_bind]
    rfl

theorem reads_emptyMap (rest : List Char) :
    Reads (readValue ('\x7b' :: '\x7d' :: rest)) (.map []) rest := by
  refine ⟨by simp only [List.length_cons]; omega, ?_⟩
  rw [readValue.eq_def]
  rfl

theorem reads_map {entries : Entries} (hEnd : ∀ after, skipBlanks cs ≠ '\x7d' :: after)
    (h : Reads (readMembers (skipBlanks cs)) entries rest) (hDistinct : Dictionary.Distinct entries) :
    Reads (readValue ('\x7b' :: cs)) (.map entries) rest := by
  obtain ⟨hShorter, hRead⟩ := h
  have hBlanks := skipBlanks_length_le cs
  refine ⟨by simp only [List.length_cons]; omega, ?_⟩
  have hQuote : ('\x7b' == '\x22') = false := by decide
  have hList : ('\x7b' == '[') = false := by decide
  rw [readValue.eq_def]
  simp only [hQuote, hList, Bool.false_eq_true, if_false, beq_self_eq_true, if_true, hRead, ok_bind,
    Dictionary.ofEntries_eq_self hDistinct]
  rfl

theorem reads_name (s : String) (rest : List Char) :
    Reads (readName ((textLiteral s).toList ++ rest)) (.str s) rest := by
  obtain ⟨cs, hText, hShorter, hRead⟩ := reads_quoted ((textLiteral s).toList ++ rest) s rest
  rw [hText] at hRead ⊢
  refine ⟨Nat.lt_succ_of_lt hShorter, ?_⟩
  have hQuote : (doubleQuote == '\x22') = true := rfl
  simp only [readName, hQuote, if_true, hRead, ok_bind, String.ofList_toList]
  rfl

/-- The value of a member stands after a colon and a blank. -/
theorem readColon_blank (cs : List Char) :
    ∃ h, readColon (':' :: ' ' :: cs) = .ok ⟨skipBlanks cs, h⟩ := by
  refine ⟨?_, ?_⟩
  · have := skipBlanks_length_le cs
    simp only [List.length_cons]
    omega
  · rw [readColon]
    rfl

/-- The last member of an object. -/
theorem reads_lastMember (s : String) (h : Reads (readValue (skipBlanks cs)) v ('\x7d' :: rest)) :
    Reads (readMembers ((textLiteral s).toList ++ ':' :: ' ' :: cs)) [(.str s, v)] rest := by
  obtain ⟨hShorter, hName⟩ := reads_name s (':' :: ' ' :: cs)
  obtain ⟨hColon, hRead⟩ := readColon_blank cs
  obtain ⟨hShorter', hRead'⟩ := h
  have hBlanks := skipBlanks_length_le cs
  have hSize : rest.length + 1 < (skipBlanks cs).length := hShorter'
  refine ⟨?_, ?_⟩
  · simp only [List.length_append, List.length_cons]
    omega
  · rw [readMembers.eq_def]
    simp only [hName, hRead, hRead', ok_bind]
    rfl

/-- A member that others follow. -/
theorem reads_moreMembers (s : String) {entries : Entries}
    (h : Reads (readValue (skipBlanks cs)) v (',' :: after))
    (hMore : Reads (readMembers (skipBlanks after)) entries rest) :
    Reads (readMembers ((textLiteral s).toList ++ ':' :: ' ' :: cs)) ((.str s, v) :: entries) rest := by
  obtain ⟨hShorter, hName⟩ := reads_name s (':' :: ' ' :: cs)
  obtain ⟨hColon, hRead⟩ := readColon_blank cs
  obtain ⟨hShorter', hRead'⟩ := h
  obtain ⟨hShorter'', hRead''⟩ := hMore
  have hBlanks := skipBlanks_length_le cs
  have hBlanks' := skipBlanks_length_le after
  have hSize : after.length + 1 < (skipBlanks cs).length := hShorter'
  refine ⟨?_, ?_⟩
  · simp only [List.length_append, List.length_cons]
    omega
  · rw [readMembers.eq_def]
    simp only [hName, hRead, hRead', ok_bind]
    split
    · rename_i hNone
      cases hNone
    · rename_i hHere
      obtain ⟨rfl, rfl⟩ := List.cons.inj hHere
      have hEnd : (',' == '\x7d') = false := by decide
      simp only [hEnd, Bool.false_eq_true, if_false, beq_self_eq_true, if_true, hRead'', ok_bind]
      rfl

/-- Blanks are dropped up to the first character that is none. -/
theorem skipBlanks_append {blanks : List Char} (hBlanks : ∀ c ∈ blanks, isJsonBlank c = true)
    (hStart : ∀ c ∈ cs.head?, isJsonBlank c = false) : skipBlanks (blanks ++ cs) = cs := by
  rw [skipBlanks, List.dropWhile_append_of_pos hBlanks]
  cases cs with
  | nil => rfl
  | cons c more =>
    rw [List.dropWhile_cons, hStart c rfl]
    rfl

theorem skipBlanks_eq_self (hStart : ∀ c ∈ cs.head?, isJsonBlank c = false) : skipBlanks cs = cs :=
  skipBlanks_append (List.forall_mem_nil _) hStart

/-- Texts joined by a comma and blanks. -/
def joined (blanks : List Char) (texts : List String) : List Char :=
  (',' :: blanks).intercalate (texts.map String.toList)

theorem joined_singleton (blanks : List Char) (t : String) : joined blanks [t] = t.toList :=
  List.intercalate_singleton

theorem joined_cons_cons (blanks : List Char) (t u : String) (ts : List String) (rest : List Char) :
    joined blanks (t :: u :: ts) ++ rest =
      t.toList ++ ',' :: (blanks ++ (joined blanks (u :: ts) ++ rest)) := by
  simp [joined]

/-- Joined texts start with the first of them. -/
theorem head?_joined {t : String} {c : Char} (h : t.toList.head? = some c) (blanks : List Char)
    (ts : List String) (rest : List Char) : (joined blanks (t :: ts) ++ rest).head? = some c := by
  obtain ⟨more, hText⟩ := List.head?_eq_some_iff.mp h
  cases ts with
  | nil => rw [joined_singleton, hText, List.cons_append, List.head?_cons]
  | cons u us => rw [joined_cons_cons, hText, List.cons_append, List.head?_cons]

theorem ended_comma (rest : List Char) : Ended (',' :: rest) := by
  rintro c ⟨⟩
  decide

theorem ended_bracket (rest : List Char) : Ended (']' :: rest) := by
  rintro c ⟨⟩
  decide

theorem ended_brace (rest : List Char) : Ended ('\x7d' :: rest) := by
  rintro c ⟨⟩
  decide

/-- The first character of the text of a value is no blank and closes nothing. -/
theorem ReadsBack.head? (h : ReadsBack v) :
    ∃ c, (written v).toList.head? = some c ∧ isJsonBlank c = false ∧ c ≠ ']' := by
  obtain ⟨c, more, hText, hBlank, hEnd, -⟩ := h.starts
  exact ⟨c, by rw [hText, List.head?_cons], hBlank, hEnd⟩

/-- Items that are joined by a comma and blanks are read one after the other. -/
theorem reads_items {blanks : List Char} (hBlanks : ∀ c ∈ blanks, isJsonBlank c = true)
    {items : List Value} (hSome : items ≠ []) (hItems : ∀ v ∈ items, ReadsBack v) (rest : List Char) :
    Reads (readItems (joined blanks (items.map written) ++ ']' :: rest)) (items.map arranged) rest := by
  induction items with
  | nil => exact absurd rfl hSome
  | cons v vs ih =>
    obtain ⟨hHead, hRest⟩ := List.forall_mem_cons.mp hItems
    cases vs with
    | nil =>
      rw [List.map_singleton, joined_singleton]
      exact reads_last (hHead.reads _ (ended_bracket rest))
    | cons w ws =>
      obtain ⟨c, hFirst, hBlank, -⟩ := (hRest w List.mem_cons_self).head?
      have hHere : skipBlanks (blanks ++ (joined blanks ((w :: ws).map written) ++ ']' :: rest)) =
          joined blanks ((w :: ws).map written) ++ ']' :: rest := by
        refine skipBlanks_append hBlanks ?_
        rw [List.map_cons, head?_joined hFirst]
        rintro _ ⟨⟩
        exact hBlank
      have hMore := ih (List.cons_ne_nil _ _) hRest
      rw [← hHere] at hMore
      rw [List.map_cons, List.map_cons, joined_cons_cons]
      exact reads_more (hHead.reads _ (ended_comma _)) hMore

/-- A value is read where blanks are looked for in front of it. -/
theorem ReadsBack.reads_skipped (h : ReadsBack v) (hRest : Ended rest) :
    Reads (readValue (skipBlanks ((written v).toList ++ rest))) (arranged v) rest := by
  rw [skipBlanks_eq_self]
  · exact h.reads rest hRest
  · obtain ⟨c, more, hText, hBlank, -⟩ := h.starts
    rw [hText]
    rintro _ ⟨⟩
    exact hBlank

theorem toList_writtenMember (e : Value × Value) (more : List Char) :
    (writtenMember e).toList ++ more =
      (textLiteral (nameText e.1)).toList ++ ':' :: ' ' :: ((written e.2).toList ++ more) := by
  rw [writtenMember, String.toList_append, String.toList_append]
  simp

theorem head?_writtenMember (e : Value × Value) :
    (writtenMember e).toList.head? = some doubleQuote := by
  rw [← List.append_nil (writtenMember e).toList, toList_writtenMember, toList_textLiteral]
  rfl

/-- The members of an object are read one after the other. -/
theorem reads_members {entries : Entries} (hSome : entries ≠ [])
    (hNames : ∀ e ∈ entries, e.1.isText = true) (hValues : ∀ e ∈ entries, ReadsBack e.2)
    (rest : List Char) :
    Reads (readMembers (joined [' '] (entries.map writtenMember) ++ '\x7d' :: rest))
      (entries.map arrangedEntry) rest := by
  induction entries with
  | nil => exact absurd rfl hSome
  | cons e es ih =>
    obtain ⟨hName, hNames⟩ := List.forall_mem_cons.mp hNames
    obtain ⟨hHead, hRest⟩ := List.forall_mem_cons.mp hValues
    have hEntry : arrangedEntry e = (.str (nameText e.1), arranged e.2) :=
      Prod.ext (eq_str_of_isText hName) rfl
    rw [List.map_cons (f := arrangedEntry), hEntry]
    cases es with
    | nil =>
      rw [List.map_singleton, joined_singleton, toList_writtenMember]
      exact reads_lastMember _ (hHead.reads_skipped (ended_brace rest))
    | cons f fs =>
      have hHere : skipBlanks ([' '] ++
          (joined [' '] ((f :: fs).map writtenMember) ++ '\x7d' :: rest)) =
            joined [' '] ((f :: fs).map writtenMember) ++ '\x7d' :: rest := by
        refine skipBlanks_append (List.forall_mem_singleton.mpr rfl) ?_
        rw [List.map_cons, head?_joined (head?_writtenMember f)]
        rintro _ ⟨⟩
        rfl
      have hMore := ih (List.cons_ne_nil _ _) hNames hRest
      rw [← hHere] at hMore
      rw [List.map_cons, List.map_cons, joined_cons_cons, toList_writtenMember]
      exact reads_moreMembers _ (hHead.reads_skipped (ended_comma _)) hMore

/-- A list whose items are joined by a comma and blanks is read as the list of the arranged items. -/
theorem reads_joined {blanks : List Char} (hBlanks : ∀ c ∈ blanks, isJsonBlank c = true)
    {items : List Value} (hItems : ∀ v ∈ items, ReadsBack v) (rest : List Char) :
    Reads (readValue ('[' :: (joined blanks (items.map written) ++ ']' :: rest)))
      (.list (items.map arranged)) rest := by
  cases items with
  | nil => exact reads_emptyList rest
  | cons v vs =>
    obtain ⟨c, hFirst, hBlank, hEnd⟩ := (hItems v List.mem_cons_self).head?
    have hReads := reads_items hBlanks (List.cons_ne_nil v vs) hItems rest
    have hStart := head?_joined hFirst blanks (vs.map written) (']' :: rest)
    rw [← List.map_cons] at hStart
    generalize joined blanks ((v :: vs).map written) ++ ']' :: rest = cs at hReads hStart ⊢
    have hHere : skipBlanks cs = cs := by
      refine skipBlanks_eq_self ?_
      rw [hStart]
      rintro _ ⟨⟩
      exact hBlank
    refine reads_list ?_ (hHere.symm ▸ hReads)
    intro after hAfter
    rw [← hHere, hAfter] at hStart
    cases hStart
    exact hEnd rfl

/-- An object is read as the object of its arranged entries. -/
theorem reads_joinedMembers {entries : Entries} (hNamed : Named entries)
    (hValues : ∀ e ∈ entries, ReadsBack e.2) (rest : List Char) :
    Reads (readValue ('\x7b' :: (joined [' '] (entries.map writtenMember) ++ '\x7d' :: rest)))
      (.map (entries.map arrangedEntry)) rest := by
  cases entries with
  | nil => exact reads_emptyMap rest
  | cons e es =>
    have hReads := reads_members (List.cons_ne_nil e es) hNamed.texts hValues rest
    have hStart := head?_joined (head?_writtenMember e) [' '] (es.map writtenMember) ('\x7d' :: rest)
    rw [← List.map_cons] at hStart
    generalize joined [' '] ((e :: es).map writtenMember) ++ '\x7d' :: rest = cs at hReads hStart ⊢
    have hHere : skipBlanks cs = cs := by
      refine skipBlanks_eq_self ?_
      rw [hStart]
      rintro _ ⟨⟩
      rfl
    refine reads_map ?_ (hHere.symm ▸ hReads) (hNamed.map (f := arrangedEntry) fun _ => rfl).distinct
    intro after hAfter
    rw [← hHere, hAfter] at hStart
    cases hStart

end Collections

/-- **Values read back.** The canonical text of a JSON value is read as the arranged value. -/
theorem readsBack {v : Value} (hv : IsJson v) : ReadsBack v := by
  induction hv with
  | null => exact readsBack_word (w := ("null", .null)) (by simp [words]) rfl
  | bool b => exact readsBack_bool b
  | int n => exact readsBack_number rfl (isNumber_int n)
  | float x => exact readsBack_float x
  | str s => exact readsBack_str s
  | @list items hItems ih =>
    have hText : (written (.list items)).toList = '[' :: (joined [' '] (items.map written) ++ [']']) := by
      rw [written_list hItems, String.toList_append, String.toList_append, String.toList_intercalate]
      rfl
    refine ⟨⟨_, _, hText, by decide, by decide, by decide⟩, ?_⟩
    intro rest _
    rw [hText, arranged, arrangedItems_eq, List.cons_append, List.append_assoc]
    exact reads_joined (List.forall_mem_singleton.mpr rfl) ih rest
  | @map entries hDistinct hNames hValues ih =>
    have hText : (written (.map entries)).toList =
        '\x7b' :: (joined [' '] ((entries.mergeSort nameLe).map writtenMember) ++ ['\x7d']) := by
      rw [written_map (.map hDistinct hNames hValues), String.toList_append, String.toList_append,
        String.toList_intercalate]
      rfl
    refine ⟨⟨_, _, hText, by decide, by decide, by decide⟩, ?_⟩
    intro rest _
    rw [hText, arranged, arrangedEntries_eq, List.cons_append, List.append_assoc,
      sort_map (f := arrangedEntry) fun _ => rfl]
    have hSorted := (named_of_distinct hDistinct hNames).perm (List.mergeSort_perm _ nameLe).symm
    have hRead : ∀ e ∈ entries.mergeSort nameLe, ReadsBack e.2 := fun e he =>
      ih e (List.mem_mergeSort.mp he)
    exact reads_joinedMembers hSorted hRead rest

/-- JSON values are written alike exactly when they are the same. -/
theorem written_eq_iff {v w : Value} (hv : IsJson v) (hw : IsJson w) :
    written v = written w ↔ Same v w := by
  rw [same_iff hv hw]
  constructor
  · intro hText
    have hRead := (readsBack hv).reads [] nofun
    rw [hText] at hRead
    exact hRead.value_eq ((readsBack hw).reads [] nofun)
  · intro hEq
    rw [← written_arranged hv, hEq, written_arranged hw]

/-- A text that starts with a bracket and is one value is read as this value. -/
theorem readAll_list {cs : List Char} {v : Value} (h : Reads (readValue ('[' :: cs)) v []) :
    readAll ('[' :: cs) = .ok v := by
  obtain ⟨hShorter, hRead⟩ := h
  have hMark : (('[' :: cs).head? == some '\ufeff') = false := by
    rw [List.head?_cons]
    decide
  have hRead' : readValue (skipBlanks ('[' :: cs)) = .ok ⟨v, [], hShorter⟩ := hRead
  rw [readAll, hMark, if_neg Bool.false_ne_true, hRead', ok_bind]
  rfl

/-- A list of canonical texts is read as the list of the arranged values. -/
theorem parse_joined {items : List Value} (hItems : ∀ v ∈ items, IsJson v) :
    parse ("[" ++ ",".intercalate (items.map written) ++ "]") = .ok (.list (items.map arranged)) := by
  have hText : ("[" ++ ",".intercalate (items.map written) ++ "]").toList =
      '[' :: (joined [] (items.map written) ++ [']']) := by
    rw [String.toList_append, String.toList_append, String.toList_intercalate]
    rfl
  have hReads := reads_joined (List.forall_mem_nil _) (fun v hv => readsBack (hItems v hv)) []
  rw [parse, hText, readAll_list hReads]
  rfl

end ClientGen.Document.Json
