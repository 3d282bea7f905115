import ClientGen.Proofs.Outcome
import ClientGen.Proofs.Unit.Groups

/-!
# Faults of writing units

Writing the units of a specification reads schemas a second time and looks up what
the passes before have collected. The first can only fail by misuse, when a schema
holds something else than is needed. The second can fail in one further way, by an
enumeration that was never collected, and does not if the registry serves every
parameter that lists its values (`Serves`).

Main results:

* `merge_onlyMisuse`, `kindOf_onlyMisuse`, `enumValues?_onlyMisuse` — reading a
  schema fails by misuse at most.
* `unitsOf_onlyMisuse` — so does writing all units with a registry that serves the
  specification.
-/

namespace ClientGen

open ClientGen.Api ClientGen.Document ClientGen.Enumeration ClientGen.Naming ClientGen.Schema

variable {α β : Type}

/-- A failure is a misuse. -/
def OnlyMisuse (x : Except Fault α) : Prop := ∀ e, x = .error e → ∃ m, e = .misuse m

theorem onlyMisuse_ok (a : α) : OnlyMisuse (.ok a : Except Fault α) := by
  intro e h
  cases h

theorem onlyMisuse_misuse (m : Misuse) : OnlyMisuse (.error (.misuse m) : Except Fault α) := by
  intro e h
  cases h
  exact ⟨m, rfl⟩

/-- What follows a step only has to be looked at for the values of the step. -/
theorem onlyMisuse_bind_of_ok {x : Except Fault α} {f : α → Except Fault β} (hx : OnlyMisuse x)
    (hf : ∀ a, x = .ok a → OnlyMisuse (f a)) : OnlyMisuse (x >>= f) := by
  cases x with
  | ok a => exact hf a rfl
  | error e =>
    intro e' h
    cases h
    exact hx e rfl

theorem onlyMisuse_bind {x : Except Fault α} {f : α → Except Fault β} (hx : OnlyMisuse x)
    (hf : ∀ a, OnlyMisuse (f a)) : OnlyMisuse (x >>= f) :=
  onlyMisuse_bind_of_ok hx fun a _ => hf a

theorem onlyMisuse_run {x : Journal α} {f : α → Journal β} (hx : OnlyMisuse x.outcome)
    (hf : ∀ a, OnlyMisuse (f a).outcome) : OnlyMisuse (x >>= f).outcome := by
  rw [Journal.outcome_bind]
  exact onlyMisuse_bind hx hf

theorem onlyMisuse_lift {x : Except Fault α} (hx : OnlyMisuse x) :
    OnlyMisuse (liftM x : Journal α).outcome := hx

theorem onlyMisuse_mapM {f : α → Except Fault β} {xs : List α} (hf : ∀ x ∈ xs, OnlyMisuse (f x)) :
    OnlyMisuse (xs.mapM f) := by
  induction xs with
  | nil => exact onlyMisuse_ok []
  | cons x xs ih =>
    rw [List.mapM_cons]
    refine onlyMisuse_bind (hf x List.mem_cons_self) fun y => ?_
    refine onlyMisuse_bind (ih fun x hx => hf x (List.mem_cons_of_mem _ hx)) fun ys => ?_
    exact onlyMisuse_ok _

theorem onlyMisuse_foldlM {f : β → α → Except Fault β} {xs : List α} (b : β)
    (hf : ∀ b x, OnlyMisuse (f b x)) : OnlyMisuse (xs.foldlM f b) := by
  induction xs generalizing b with
  | nil => exact onlyMisuse_ok b
  | cons x xs ih =>
    rw [List.foldlM_cons]
    exact onlyMisuse_bind (hf b x) ih

-- ---------------------------------------------------------------------------
-- Reading values
-- ---------------------------------------------------------------------------

theorem entries_onlyMisuse (v : Value) : OnlyMisuse v.entries := by
  cases v <;> first | exact onlyMisuse_ok _ | exact onlyMisuse_misuse _

theorem elements_onlyMisuse (v : Value) : OnlyMisuse v.elements := by
  cases v <;> first | exact onlyMisuse_ok _ | exact onlyMisuse_misuse _

theorem mentions_onlyMisuse (v : Value) (name : String) : OnlyMisuse (v.mentions name) := by
  cases v <;> first | exact onlyMisuse_ok _ | exact onlyMisuse_misuse _

theorem asText_onlyMisuse (v : Value) : OnlyMisuse v.asText := by
  cases v <;> first | exact onlyMisuse_ok _ | exact onlyMisuse_misuse _

theorem member_onlyMisuse (v : Value) (name : String) : OnlyMisuse (v.member name) :=
  onlyMisuse_bind (entries_onlyMisuse v) fun _ => onlyMisuse_ok _

theorem keysOf_onlyMisuse (v : Value) : OnlyMisuse v.keysOf := by
  refine onlyMisuse_bind (elements_onlyMisuse v) fun items => ?_
  split
  · exact onlyMisuse_ok _
  · exact onlyMisuse_misuse _

theorem asEntry_onlyMisuse (v : Value) : OnlyMisuse v.asEntry := by
  refine onlyMisuse_bind (elements_onlyMisuse v) fun items => ?_
  split
  · split
    · exact onlyMisuse_ok _
    · exact onlyMisuse_misuse _
  · exact onlyMisuse_misuse _

theorem contribution_onlyMisuse (v : Value) : OnlyMisuse v.contribution := by
  unfold Value.contribution
  split
  · exact onlyMisuse_ok _
  · exact onlyMisuse_bind (elements_onlyMisuse v) fun items =>
      onlyMisuse_mapM fun x _ => asEntry_onlyMisuse x

-- ---------------------------------------------------------------------------
-- Reading schemas
-- ---------------------------------------------------------------------------

theorem ownParts_onlyMisuse (schema : Value) : OnlyMisuse (ownParts schema) := by
  refine onlyMisuse_bind (contribution_onlyMisuse _) fun properties => ?_
  exact onlyMisuse_bind (elements_onlyMisuse _) fun required => onlyMisuse_ok _

mutual

/-- Merging fails by misuse at most. -/
theorem merge_onlyMisuse (schema : Value) : OnlyMisuse (merge schema) := by
  rw [merge]
  refine onlyMisuse_bind (mentions_onlyMisuse _ _) fun mentioned => ?_
  split
  · split
    · refine onlyMisuse_bind (ownParts_onlyMisuse _) fun own => ?_
      split
      · rename_i members hMembers
        have hSmall := Value.field?_depth hMembers
        exact onlyMisuse_bind (mergeMembers_onlyMisuse own members) fun total => onlyMisuse_ok _
      · exact onlyMisuse_bind (elements_onlyMisuse _) fun _ => onlyMisuse_ok _
      · exact onlyMisuse_ok _
    · exact onlyMisuse_misuse _
  · exact onlyMisuse_ok _
termination_by (schema.depth, 0)
decreasing_by
  simp only [Prod.lex_def, Value.depth] at *
  omega

theorem mergeMembers_onlyMisuse (parts : Merged) (members : List Value) :
    OnlyMisuse (mergeMembers parts members) := by
  match members with
  | [] =>
    rw [mergeMembers]
    exact onlyMisuse_ok _
  | member :: rest =>
    rw [mergeMembers]
    split
    · refine onlyMisuse_bind (merge_onlyMisuse member) fun merged => ?_
      refine onlyMisuse_bind (ownParts_onlyMisuse merged) fun own => ?_
      exact mergeMembers_onlyMisuse _ rest
    · exact mergeMembers_onlyMisuse parts rest
termination_by (Value.itemsDepth members, members.length + 1)
decreasing_by all_goals simp only [Value.itemsDepth, Prod.lex_def, List.length_cons]; omega

end

mutual

/-- The literal values of a schema are found or the schema is misused. -/
theorem enumValues?_onlyMisuse (schema : Value) : OnlyMisuse (enumValues? schema) := by
  rw [enumValues?]
  split
  · exact onlyMisuse_ok _
  · split
    · exact onlyMisuse_ok _
    · rename_i members hMembers
      have hSmall := Value.field?_depth hMembers
      exact firstEnum?_onlyMisuse members
    · exact onlyMisuse_bind (elements_onlyMisuse _) fun _ => onlyMisuse_ok _
termination_by (schema.depth, 0)
decreasing_by
  simp only [Prod.lex_def, Value.depth] at *
  omega

theorem firstEnum?_onlyMisuse (schemas : List Value) : OnlyMisuse (firstEnum? schemas) := by
  match schemas with
  | [] =>
    rw [firstEnum?]
    exact onlyMisuse_ok _
  | schema :: rest =>
    rw [firstEnum?]
    refine onlyMisuse_bind (enumValues?_onlyMisuse schema) fun values? => ?_
    split
    · exact onlyMisuse_ok _
    · exact firstEnum?_onlyMisuse rest
termination_by (Value.itemsDepth schemas, schemas.length + 1)
decreasing_by all_goals simp only [Value.itemsDepth, Prod.lex_def, List.length_cons]; omega

end

theorem offersNull_onlyMisuse (schema : Value) (key : String) : OnlyMisuse (offersNull schema key) := by
  unfold offersNull
  split
  · exact onlyMisuse_ok _
  · exact onlyMisuse_bind (elements_onlyMisuse _) fun _ => onlyMisuse_ok _

theorem agreedKind_onlyMisuse (keyword : String) (kinds : List Kind) :
    OnlyMisuse (agreedKind keyword kinds).outcome := by
  unfold agreedKind
  split <;> exact onlyMisuse_ok _

mutual

/-- The kind of a schema is found or the schema is misused. -/
theorem kindOf_onlyMisuse (schema : Value) : OnlyMisuse (kindOf schema).outcome := by
  rw [kindOf]
  split
  · exact onlyMisuse_ok _
  · split
    · exact onlyMisuse_ok _
    · split
      · rename_i members hMembers
        have hSmall := Value.field?_depth hMembers
        refine onlyMisuse_run (memberKinds_onlyMisuse false members) fun kinds => ?_
        split
        · exact onlyMisuse_ok _
        · exact agreedKind_onlyMisuse _ _
      · split
        · rename_i members hMembers
          have hSmall := Value.field?_depth hMembers
          exact onlyMisuse_run (memberKinds_onlyMisuse true members) fun kinds => agreedKind_onlyMisuse _ _
        · split
          · rename_i members hMembers
            have hSmall := Value.field?_depth hMembers
            exact onlyMisuse_run (memberKinds_onlyMisuse true members) fun kinds =>
              agreedKind_onlyMisuse _ _
          · exact onlyMisuse_ok _
termination_by (schema.depth, 0)
decreasing_by all_goals exact Prod.Lex.left _ _ hSmall

theorem memberKinds_onlyMisuse (skipNull : Bool) (members : Value) :
    OnlyMisuse (memberKinds skipNull members).outcome := by
  have hItems : ∀ items, members = .list items → OnlyMisuse (itemKinds skipNull items).outcome := by
    intro items hList
    have hSmall : Value.itemsDepth items < members.depth := by
      rw [hList]
      exact Nat.lt_succ_self _
    exact itemKinds_onlyMisuse skipNull items
  unfold memberKinds
  split
  · exact hItems _ rfl
  · exact onlyMisuse_run (onlyMisuse_lift (elements_onlyMisuse _)) fun _ => onlyMisuse_ok _
termination_by (members.depth, 1)
decreasing_by exact Prod.Lex.left _ _ hSmall

theorem itemKinds_onlyMisuse (skipNull : Bool) (items : List Value) :
    OnlyMisuse (itemKinds skipNull items).outcome := by
  match items with
  | [] =>
    rw [itemKinds]
    exact onlyMisuse_ok _
  | schema :: rest =>
    rw [itemKinds]
    split
    · exact itemKinds_onlyMisuse skipNull rest
    · refine onlyMisuse_run (kindOf_onlyMisuse schema) fun kind => ?_
      exact onlyMisuse_run (itemKinds_onlyMisuse skipNull rest) fun kinds => onlyMisuse_ok _
termination_by (Value.itemsDepth items, items.length + 1)
decreasing_by all_goals simp only [Value.itemsDepth, Prod.lex_def, List.length_cons]; omega

end

theorem isNullable_onlyMisuse (schema : Value) : OnlyMisuse (isNullable schema) := by
  unfold isNullable
  dsimp only
  split
  · exact onlyMisuse_ok _
  · split
    on_goal 1 => split
    on_goal 1 => exact onlyMisuse_ok _
    -- once `type` does not settle it, the same follows whether it is a list or not
    all_goals
      refine onlyMisuse_bind (offersNull_onlyMisuse _ _) fun one => ?_
      split
      · exact onlyMisuse_ok _
      · refine onlyMisuse_bind (offersNull_onlyMisuse _ _) fun any => ?_
        split
        · exact onlyMisuse_ok _
        · split <;> exact onlyMisuse_ok _

-- ---------------------------------------------------------------------------
-- Enumerations and data classes
-- ---------------------------------------------------------------------------

theorem canonicalText_onlyMisuse (v : Value) : OnlyMisuse (canonicalText v) := by
  unfold canonicalText
  split
  · exact onlyMisuse_ok _
  · exact onlyMisuse_misuse _

theorem signature_onlyMisuse (values : List Value) : OnlyMisuse (signature values) :=
  onlyMisuse_bind (onlyMisuse_mapM fun v _ => canonicalText_onlyMisuse v) fun _ => onlyMisuse_ok _

theorem members_onlyMisuse (values : List Value) : OnlyMisuse (members values) := by
  refine onlyMisuse_bind (onlyMisuse_mapM fun v _ => ?_) fun _ => onlyMisuse_ok _
  unfold literalText
  split
  · exact onlyMisuse_ok _
  · exact canonicalText_onlyMisuse v

namespace Unit

theorem enumUnit_onlyMisuse (settings : Settings) (d : Definition) :
    OnlyMisuse (enumUnit settings d) := by
  refine onlyMisuse_bind ?_ fun _ => onlyMisuse_ok _
  exact onlyMisuse_bind (members_onlyMisuse _) fun _ => onlyMisuse_ok _

theorem enumOf?_onlyMisuse (registry : Registry) (schema : Value) :
    OnlyMisuse (Dto.enumOf? registry schema) := by
  refine onlyMisuse_bind (enumValues?_onlyMisuse schema) fun values? => ?_
  split
  · split
    · refine onlyMisuse_bind ?_ fun _ => onlyMisuse_ok _
      exact onlyMisuse_bind (signature_onlyMisuse _) fun _ => onlyMisuse_ok _
    · exact onlyMisuse_ok _
  · exact onlyMisuse_ok _

theorem fieldOf_onlyMisuse (className : String) (registry : Registry) (required : List Value)
    (used : List String) (key : String) (schema : Value) :
    OnlyMisuse (Dto.fieldOf className registry required used key schema).outcome := by
  unfold Dto.fieldOf
  dsimp only
  refine onlyMisuse_run (enumOf?_onlyMisuse registry schema) fun enum? => ?_
  split
  on_goal 1 => refine onlyMisuse_run (onlyMisuse_lift (isNullable_onlyMisuse schema)) fun optional => ?_
  on_goal 2 => refine onlyMisuse_run (onlyMisuse_ok true) fun optional => ?_
  -- optional or not, the type is that of the enumeration or that of the schema
  all_goals
    split
    · exact onlyMisuse_ok _
    · exact onlyMisuse_run (kindOf_onlyMisuse schema) fun _ => onlyMisuse_ok _

theorem fieldsOf_onlyMisuse (className : String) (registry : Registry) (schema : Value) :
    OnlyMisuse (Dto.fieldsOf className registry schema).outcome := by
  refine onlyMisuse_run (onlyMisuse_lift (merge_onlyMisuse schema)) fun object => ?_
  refine onlyMisuse_run (onlyMisuse_lift (member_onlyMisuse _ _)) fun stated => ?_
  refine onlyMisuse_run (onlyMisuse_lift (keysOf_onlyMisuse _)) fun required => ?_
  refine onlyMisuse_run (onlyMisuse_lift (member_onlyMisuse _ _)) fun stated => ?_
  refine onlyMisuse_run (onlyMisuse_lift (entries_onlyMisuse _)) fun properties => ?_
  refine onlyMisuse_run ?_ fun _ => onlyMisuse_ok _
  rw [Journal.outcome_foldlM]
  refine onlyMisuse_foldlM _ fun state property => ?_
  obtain ⟨key, schema⟩ := property
  unfold Dto.addField
  dsimp only
  split
  · exact onlyMisuse_ok _
  · refine onlyMisuse_run (onlyMisuse_lift (asText_onlyMisuse key)) fun key => ?_
    exact onlyMisuse_run (fieldOf_onlyMisuse _ _ _ _ _ _) fun _ => onlyMisuse_ok _

theorem dtoUnit_onlyMisuse (settings : Settings) (registry : Registry) (name : String)
    (schema : Value) : OnlyMisuse (dtoUnit settings registry name schema).outcome := by
  refine onlyMisuse_run ?_ fun _ => onlyMisuse_ok _
  refine onlyMisuse_run (fieldsOf_onlyMisuse _ _ _) fun fields => ?_
  exact onlyMisuse_run (onlyMisuse_lift (member_onlyMisuse _ _)) fun _ => onlyMisuse_ok _

theorem dtosOf_onlyMisuse (s : Specification) : OnlyMisuse (dtosOf s).outcome := by
  refine onlyMisuse_run ?_ fun components => onlyMisuse_run ?_ fun all => onlyMisuse_ok _
  · rw [Journal.outcome_foldlM]
    refine onlyMisuse_foldlM _ fun dtos entry => ?_
    obtain ⟨name, schema⟩ := entry
    unfold addComponentDto
    dsimp only
    split
    · exact onlyMisuse_ok _
    · refine onlyMisuse_run (onlyMisuse_lift (asText_onlyMisuse name)) fun name => ?_
      split <;> exact onlyMisuse_ok _
  · rw [Journal.outcome_foldlM]
    refine onlyMisuse_foldlM _ fun dtos endpoint => ?_
    unfold addResponseDto
    split
    · split
      · split <;> exact onlyMisuse_ok _
      · exact onlyMisuse_ok _
    · exact onlyMisuse_ok _

-- ---------------------------------------------------------------------------
-- Requests and resources
-- ---------------------------------------------------------------------------

/-- The registry has a name for every parameter of a slot that lists its values. -/
def Serves (registry : Registry) (e : Endpoint) : Prop :=
  ∀ slot, ∀ p ∈ e.parameters slot, p.hasEnum = true →
    ∃ name, registry.nameAt ⟨e.key, slot.name, [p.name]⟩ = .ok name

/-- Arguments only ask for enumerations of parameters that list their values. -/
theorem arguments_onlyMisuse {registry : Registry} {e : Endpoint} (resolved : ResolvedName)
    (hServes : Serves registry e) : OnlyMisuse (Argument.ofEndpoint e resolved registry) := by
  refine onlyMisuse_bind (onlyMisuse_mapM ?_) fun _ => onlyMisuse_ok _
  intro passed hMem
  obtain ⟨slot, -, hMem⟩ := List.mem_flatMap.mp hMem
  obtain ⟨p, hp, rfl⟩ := List.mem_map.mp hMem
  show OnlyMisuse (Argument.ofParameter? e resolved registry slot p)
  unfold Argument.ofParameter?
  split
  · split
    · exact onlyMisuse_ok _
    · dsimp only
      split
      · rename_i hEnum
        obtain ⟨name, hName⟩ := hServes slot p hp hEnum
        rw [hName]
        exact onlyMisuse_ok _
      · exact onlyMisuse_ok _
  · exact onlyMisuse_ok _

theorem urlFormat_onlyMisuse (e : Endpoint) (resolved : ResolvedName) :
    OnlyMisuse (urlFormat e resolved) := by
  refine onlyMisuse_bind (onlyMisuse_mapM fun segment _ => ?_) fun _ => onlyMisuse_ok _
  refine onlyMisuse_bind (onlyMisuse_mapM fun piece _ => ?_) fun _ => onlyMisuse_ok _
  unfold pieceText
  split
  · exact onlyMisuse_ok _
  · split
    · exact onlyMisuse_ok _
    · exact onlyMisuse_misuse _

theorem requestUnit_onlyMisuse (settings : Settings) {registry : Registry} {e : Endpoint}
    (resolved : ResolvedName) (hServes : Serves registry e) :
    OnlyMisuse (requestUnit settings registry e resolved) := by
  refine onlyMisuse_bind ?_ fun _ => onlyMisuse_ok _
  refine onlyMisuse_bind (arguments_onlyMisuse resolved hServes) fun arguments => ?_
  exact onlyMisuse_bind (urlFormat_onlyMisuse _ _) fun _ => onlyMisuse_ok _

theorem resourceUnit_onlyMisuse (settings : Settings) {registry : Registry} (className : String)
    {members : List (Endpoint × ResolvedName)} (hServes : ∀ m ∈ members, Serves registry m.1) :
    OnlyMisuse (resourceUnit settings registry className members) := by
  refine onlyMisuse_bind ?_ fun _ => onlyMisuse_ok _
  refine onlyMisuse_bind (onlyMisuse_mapM fun m hm => ?_) fun _ => onlyMisuse_ok _
  exact onlyMisuse_bind (arguments_onlyMisuse m.2 (hServes m hm)) fun _ => onlyMisuse_ok _

-- ---------------------------------------------------------------------------
-- All units
-- ---------------------------------------------------------------------------

theorem namedEndpoints_onlyMisuse (s : Specification) (names : Dictionary String ResolvedName) :
    OnlyMisuse (namedEndpoints s names) := by
  refine onlyMisuse_mapM fun e _ => ?_
  split
  · exact onlyMisuse_ok _
  · exact onlyMisuse_misuse _

/-- **Writing units finds what was collected.** With a registry that serves the
endpoints, writing the units fails by misuse at most, whatever their names are. -/
theorem unitsOf_onlyMisuse (settings : Settings) {s : Specification} {registry : Registry}
    (names : Dictionary String ResolvedName) (hServes : ∀ e ∈ s.endpoints, Serves registry e) :
    OnlyMisuse (unitsOf settings s registry names).outcome := by
  unfold unitsOf
  rw [Journal.outcome_bind]
  refine onlyMisuse_bind_of_ok (namedEndpoints_onlyMisuse s names) fun members hMembers => ?_
  have hServed : ∀ m ∈ members, Serves registry m.1 := fun m hm =>
    hServes m.1 (namedEndpoints_mem hMembers m hm).1
  refine onlyMisuse_run ?_ fun requests => onlyMisuse_run ?_ fun resources =>
    onlyMisuse_run ?_ fun enums => onlyMisuse_run (dtosOf_onlyMisuse s) fun schemas =>
    onlyMisuse_run ?_ fun dtos => onlyMisuse_ok _
  · rw [Journal.outcome_mapM]
    exact onlyMisuse_mapM fun m hm => requestUnit_onlyMisuse settings m.2 (hServed m hm)
  · rw [Journal.outcome_mapM]
    refine onlyMisuse_mapM fun group hGroup => ?_
    refine resourceUnit_onlyMisuse settings group.1 fun m hm => hServed m ?_
    rw [(mem_groups_iff.mp hGroup).1] at hm
    exact List.mem_of_mem_filter hm
  · rw [Journal.outcome_mapM]
    exact onlyMisuse_mapM fun d _ => enumUnit_onlyMisuse settings d
  · rw [Journal.outcome_mapM]
    exact onlyMisuse_mapM fun entry _ => dtoUnit_onlyMisuse settings registry entry.1 entry.2

end Unit

end ClientGen
