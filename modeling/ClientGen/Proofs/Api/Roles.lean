import ClientGen.Api.Endpoint
import ClientGen.Proofs.Document.Inlined
import ClientGen.Proofs.Document.SteadyKeys
import Mathlib.Data.List.Find

/-!
# What is read of a document

The endpoints of a document are read off it member by member: the paths of the document,
the operations of a path item, the schema of a parameter. A value stands for something by
where it stands, and that decides which of its members are looked at and what they stand
for in turn. `Role.read` keeps of a value what is looked at; the other members are blank,
and parts that are read as a whole stay as they are.

Path items, parameters, request bodies and responses are shared between operations by
reference. After expansion they say so under the origin key. Nothing asks them for it,
so `Role.read` leaves this entry out. In schemas it stays, because there it decides what
is made of them.

Main results:

* `Role.read_withSiblings_congr` / `Role.read_withOrigin_congr` — what is read of an expanded
  reference depends on what is read of its target and its siblings.
* `Role.read_withOrigin_of_shared` — where components are shared, it does not depend on the
  reference.
* `Role.field?_read` — members are read in their own roles.
-/

namespace ClientGen.Api

open ClientGen.Document ClientGen.Document.Value ClientGen.Schema

/-- What a value of a document stands for. A `plain` value is read as a whole, an `unread` one is not
looked at. The members of a `table` count, but not what they hold. -/
inductive Role where
  | document | components | table | paths | pathItem | operation | parameterList | parameter
  | requestBody | responses | response | plain | unread
  deriving DecidableEq

namespace Role

/-- The members that are looked up in a value, and what they stand for. -/
@[simp] def members : Role → List (Value × Role)
  | document => [(.str "info", plain), (.str "servers", plain), (.str "security", plain),
      (.str "components", components), (.str "paths", paths)]
  | components => [(.str "securitySchemes", table), (.str "schemas", table)]
  | pathItem => (.str "parameters", parameterList) ::
      Endpoint.operationMethods.map fun method => (.str method, operation)
  | operation => [(.str "tags", plain), (.str "operationId", plain), (.str "summary", plain),
      (.str "description", plain), (.str "parameters", parameterList),
      (.str "requestBody", requestBody), (.str "responses", responses)]
  | parameter => [(.str "name", plain), (.str "in", plain), (.str "required", plain),
      (.str "description", plain), (.str "schema", plain)]
  | requestBody | response => [(.str "content", plain)]
  | responses => [(.str "200", response), (.int 200, response)]
  | _ => []

/-- What all other members stand for. -/
def others : Role → Role
  | paths => pathItem
  | plain => plain
  | _ => unread

/-- What the member at a key stands for. -/
def member (r : Role) (k : Value) : Role :=
  ((r.members.find? fun m => k == m.1).map (·.2)).getD r.others

/-- What the items of a list stand for. -/
def item : Role → Role
  | parameterList => parameter
  | plain => plain
  | _ => unread

/-- Are these the components that operations share by reference? -/
def shared : Role → Bool
  | pathItem | parameter | requestBody | response => true
  | _ => false

mutual

/-- What is read of a value. -/
def read : Role → Value → Value
  | plain, v => v
  | unread, _ => .null
  | r, .list items => .list (readItems r.item items)
  | r, .map entries => .map (readMembers r entries)
  | _, v => v

/-- What is read of the items of a list. -/
def readItems : Role → List Value → List Value
  | _, [] => []
  | r, v :: vs => read r v :: readItems r vs

/-- What is read of the members of a mapping. -/
def readMembers : Role → List (Value × Value) → List (Value × Value)
  | _, [] => []
  | r, (k, v) :: es =>
    if r.shared && k.isStr originKey then readMembers r es
    else (k, read (r.member k) v) :: readMembers r es

end

-- ---------------------------------------------------------------------------
-- Keys
-- ---------------------------------------------------------------------------

variable {r s : Role} {k k' v w x y : Value} {d top : Entries}

theorem members_steady : ∀ m ∈ r.members, Steady m.1 := by
  have hTexts : ∀ ms : List (Value × Role), (∀ m ∈ ms, m.1.isText = true) → ∀ m ∈ ms, Steady m.1 := by
    rintro ms hTexts ⟨k, _⟩ hMem
    cases k with
    | str s => exact steady_str s
    | _ => cases hTexts _ hMem
  cases r with
  | responses =>
    intro m hMem
    rcases List.mem_pair.mp hMem with rfl | rfl
    · exact steady_str _
    · exact steady_int _
  | _ => exact hTexts _ (by decide +kernel)

/-- Keys that are the same lead to the same role. -/
theorem member_congr (hSame : (k' == k) = true) : r.member k' = r.member k := by
  have hFind : (r.members.find? fun m => k' == m.1) = r.members.find? fun m => k == m.1 :=
    List.find?_congr fun m hMem => (members_steady m hMem).congr hSame
  rw [member, member, hFind]

/-- No member is listed twice, and the origin is not listed. -/
theorem members_listed : r.members.Pairwise (fun m n => (n.1 == m.1) = false) ∧
    ∀ m ∈ r.members, (m.1 == m.1) = true ∧ m.1.isStr originKey = false := by
  cases r <;> decide +kernel

/-- The members that are looked up stand for what they are listed with. -/
theorem member_of_mem (hMem : (k, s) ∈ r.members) : r.member k = s := by
  obtain ⟨hApart, hKeys⟩ := members_listed (r := r)
  obtain ⟨before, after, hSplit⟩ := List.append_of_mem hMem
  have hOthers : ∀ m ∈ before, (k == m.1) = false := by
    rw [hSplit, List.pairwise_append] at hApart
    exact fun m hm => hApart.2.2 m hm _ List.mem_cons_self
  have hFound : (r.members.find? fun m => k == m.1) = some (k, s) :=
    List.find?_eq_some_iff_append.mpr
      ⟨(hKeys _ hMem).1, before, after, hSplit, fun m hm => by rw [hOthers m hm]; rfl⟩
  rw [member, hFound]
  rfl

theorem ne_unread_of_mem (hMem : (k, s) ∈ r.members) : r ≠ unread := by
  rintro rfl
  cases hMem

theorem ne_originKey_of_mem (hMem : (k, s) ∈ r.members) : k ≠ .str originKey := by
  rintro rfl
  cases (isStr_iff.mpr rfl).symm.trans (members_listed.2 _ hMem).2

theorem isStr_congr {s : String} (hSame : (k' == k) = true) : k'.isStr s = k.isStr s := by
  rw [isStr_eq_beq, isStr_eq_beq]
  exact (steady_str s).congr hSame

-- ---------------------------------------------------------------------------
-- Reading
-- ---------------------------------------------------------------------------

@[simp] theorem read_plain (v : Value) : plain.read v = v := by
  cases v <;> rfl

@[simp] theorem read_unread (v : Value) : unread.read v = .null := by
  cases v <;> rfl

theorem readMembers_plain (es : Entries) : plain.readMembers es = es := by
  induction es with
  | nil => rfl
  | cons e es ih =>
    obtain ⟨k, v⟩ := e
    have hMember : plain.member k = plain := rfl
    rw [readMembers, ih, hMember, read_plain]
    rfl

theorem readMembers_eq_map (hShared : r.shared = false) (es : Entries) :
    r.readMembers es = es.map fun e => (e.1, (r.member e.1).read e.2) := by
  induction es with
  | nil => rfl
  | cons e es ih =>
    rw [readMembers, hShared, Bool.false_and, if_neg Bool.false_ne_true, ih, List.map_cons]

theorem readItems_eq_map (r : Role) (items : List Value) : r.readItems items = items.map r.read := by
  induction items with
  | nil => rfl
  | cons v vs ih => rw [readItems, ih, List.map_cons]

theorem read_map (hRead : r ≠ unread) (es : Entries) : r.read (.map es) = .map (r.readMembers es) := by
  cases r with
  | plain => rw [read_plain, readMembers_plain]
  | unread => exact absurd rfl hRead
  | _ => rfl

theorem read_list (hRead : r ≠ unread) (items : List Value) :
    r.read (.list items) = .list (items.map r.item.read) := by
  cases r with
  | plain =>
    have hItems : items.map plain.item.read = items := by
      rw [item, List.map_congr_left fun v _ => read_plain v, List.map_id']
    rw [read_plain, hItems]
  | unread => exact absurd rfl hRead
  | _ => exact congrArg Value.list (readItems_eq_map _ _)

theorem read_scalar (hRead : r ≠ unread) (hList : ∀ items, v ≠ .list items)
    (hMap : ∀ entries, v ≠ .map entries) : r.read v = v := by
  cases v with
  | list items => exact absurd rfl (hList items)
  | map entries => exact absurd rfl (hMap entries)
  | _ =>
    cases r with
    | unread => exact absurd rfl hRead
    | _ => rfl

theorem isMapping_read (hRead : r ≠ unread) (v : Value) : (r.read v).isMapping = v.isMapping := by
  cases v with
  | list items => rw [read_list hRead]; rfl
  | map entries => rw [read_map hRead]; rfl
  | _ => simp [read_scalar hRead]

/-- Whether a value counts as true can be read off, unless its origin is left out. -/
theorem isTruthy_read (hRead : r ≠ unread) (hShared : r.shared = false) (v : Value) :
    (r.read v).isTruthy = v.isTruthy := by
  cases v with
  | list items => rw [read_list hRead, isTruthy, isTruthy, List.isEmpty_map]
  | map entries =>
    rw [read_map hRead]
    cases entries with
    | nil => rfl
    | cons e es => rw [readMembers, hShared]; rfl
  | _ => simp [read_scalar hRead]

-- ---------------------------------------------------------------------------
-- Looking up
-- ---------------------------------------------------------------------------

/-- What is looked up in the members that are read. -/
theorem get?_readMembers (hMem : (k, s) ∈ r.members) (es : Entries) :
    Dictionary.get? (r.readMembers es) k = (Dictionary.get? es k).map s.read := by
  induction es with
  | nil => rfl
  | cons e es ih =>
    obtain ⟨k', v⟩ := e
    rw [readMembers, Dictionary.get?]
    split
    · rename_i hOrigin
      have hOther : ¬ (k' == k) = true := by
        rw [isStr_iff.mp (Bool.and_eq_true_iff.mp hOrigin).2, str_beq]
        exact ne_originKey_of_mem hMem
      rw [if_neg hOther, ih]
    · rw [Dictionary.get?]
      split
      · rename_i hSame
        rw [Option.map_some, member_congr hSame, member_of_mem hMem]
      · exact ih

/-- Members are read in their own roles. -/
theorem field?_read {name : String} (hMem : (.str name, s) ∈ r.members) (v : Value) :
    (r.read v).field? name = (v.field? name).map s.read := by
  have hRead := ne_unread_of_mem hMem
  cases v with
  | list items => rw [read_list hRead]; rfl
  | map entries =>
    rw [read_map hRead]
    exact get?_readMembers hMem entries
  | _ => simp [read_scalar hRead, field?]

theorem map_read_plain (o : Option Value) : o.map plain.read = o := by
  cases o with
  | none => rfl
  | some v => rw [Option.map_some, read_plain]

/-- Members that are read as a whole are found as they are. -/
theorem field?_read_plain {name : String} (hMem : (.str name, plain) ∈ r.members) (v : Value) :
    (r.read v).field? name = v.field? name := by
  rw [field?_read hMem, map_read_plain]

theorem member_read {name : String} (hMem : (.str name, s) ∈ r.members) (v : Value) :
    (r.read v).member name = (v.member name).map (Option.map s.read) := by
  have hRead := ne_unread_of_mem hMem
  have hField := field?_read hMem v
  cases v with
  | list items => rw [read_list hRead]; rfl
  | map entries =>
    rw [read_map hRead] at hField ⊢
    exact congrArg Except.ok hField
  | _ => simp [read_scalar hRead, Value.member, Value.entries, misused, Except.map]

theorem entries_read (hRead : r ≠ unread) (v : Value) :
    (r.read v).entries = v.entries.map r.readMembers := by
  cases v with
  | list items => rw [read_list hRead]; rfl
  | map entries => rw [read_map hRead]; rfl
  | _ => simp [read_scalar hRead, Value.entries, misused, Except.map]

/-- A value that counts as false is read like a missing one. -/
theorem orElse_read (hRead : r ≠ unread) (hShared : r.shared = false) (o : Option Value) :
    orElse (o.map r.read) emptyMap = r.read (orElse o emptyMap) := by
  have hEmpty : r.read emptyMap = emptyMap := read_map hRead []
  cases o with
  | none => exact hEmpty.symm
  | some v =>
    rw [Option.map_some, orElse, orElse, isTruthy_read hRead hShared]
    split
    · rfl
    · exact hEmpty.symm

-- ---------------------------------------------------------------------------
-- Expanded references
-- ---------------------------------------------------------------------------

/-- Reading goes past an origin that is put, and otherwise keeps what is put. -/
theorem readMembers_put (d : Entries) (k v : Value) :
    r.readMembers (Dictionary.put d k v) =
      if r.shared && k.isStr originKey then r.readMembers d
      else Dictionary.put (r.readMembers d) k ((r.member k).read v) := by
  induction d with
  | nil =>
    rw [Dictionary.put, readMembers]
    rfl
  | cons e es ih =>
    obtain ⟨k', v'⟩ := e
    rw [Dictionary.put]
    by_cases hSame : (k' == k) = true
    · rw [if_pos hSame, readMembers, readMembers, isStr_congr hSame]
      split
      · rfl
      · rw [Dictionary.put, if_pos hSame, member_congr hSame]
    · rw [if_neg hSame, readMembers, readMembers, ih]
      split
      · rfl
      · split
        · rfl
        · rw [Dictionary.put, if_neg hSame]

theorem readMembers_overlay (d top : Entries) :
    r.readMembers (Dictionary.overlay d top) =
      Dictionary.overlay (r.readMembers d) (r.readMembers top) := by
  unfold Dictionary.overlay
  induction top generalizing d with
  | nil => rfl
  | cons e es ih =>
    obtain ⟨k, v⟩ := e
    rw [List.foldl_cons, ih, readMembers_put, readMembers]
    split
    · rfl
    · rw [List.foldl_cons]

/-- Both values are mappings or both are none, if the same is read of them. -/
theorem isMapping_eq_of_read_eq (hRead : r ≠ unread) (h : r.read w = r.read v) :
    w.isMapping = v.isMapping := by
  rw [← isMapping_read hRead w, h, isMapping_read hRead]

/-- What is read of an expanded reference depends on what is read of its target and its siblings. -/
theorem read_withSiblings_congr {siblings siblings' : Entries} (h : r.read w = r.read v)
    (hSiblings : r.readMembers siblings' = r.readMembers siblings) :
    r.read (withSiblings siblings' w) = r.read (withSiblings siblings v) := by
  by_cases hRead : r = unread
  · rw [hRead, read_unread, read_unread]
  have hMapping := isMapping_eq_of_read_eq hRead h
  cases v with
  | map d =>
    cases w with
    | map d' =>
      rw [read_map hRead, read_map hRead, Value.map.injEq] at h
      rw [withSiblings, withSiblings, read_map hRead, read_map hRead, readMembers_overlay,
        readMembers_overlay, h, hSiblings]
    | _ => cases hMapping
  | _ =>
    cases w with
    | map _ => cases hMapping
    | _ => exact h

/-- The origin is put over both alike. -/
theorem read_withOrigin_congr (ref : String) (h : r.read w = r.read v) :
    r.read (withOrigin ref w) = r.read (withOrigin ref v) := by
  by_cases hRead : r = unread
  · rw [hRead, read_unread, read_unread]
  have hMapping := isMapping_eq_of_read_eq hRead h
  cases v with
  | map d =>
    cases w with
    | map d' =>
      rw [read_map hRead, read_map hRead, Value.map.injEq] at h
      rw [withOrigin, withOrigin, read_map hRead, read_map hRead, readMembers_put, readMembers_put, h]
    | _ => cases hMapping
  | _ =>
    cases w with
    | map _ => cases hMapping
    | _ => exact h

/-- Where components are shared, nobody looks where they come from. -/
theorem read_withOrigin_of_shared (hShared : r.shared = true) (ref : String) (v : Value) :
    r.read (withOrigin ref v) = r.read v := by
  have hRead : r ≠ unread := by
    rintro rfl
    cases hShared
  cases v with
  | map d =>
    have hOrigin : (Value.str originKey).isStr originKey = true := isStr_iff.mpr rfl
    rw [withOrigin, read_map hRead, read_map hRead, readMembers_put, hShared, hOrigin]
    rfl
  | _ => rfl

end Role

end ClientGen.Api
