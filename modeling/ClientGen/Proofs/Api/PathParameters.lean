import ClientGen.Proofs.Api.Operations
import ClientGen.Proofs.Schema.Siblings
import ClientGen.Proofs.Sorting
import Mathlib.Data.List.Induction

/-!
# The path parameters of an operation

An operation has the path parameters that it declares, and then one for each placeholder of
its path that is not among them. This module writes what comes out of going through the
placeholders one by one as a function of both.

Main results:

* `addPlaceholders_outcome` — the placeholders that are added, each once and in order.
* `exists_declared_of_ofOperation` — the path parameters and the segments of an operation.
-/

namespace ClientGen.Api

open ClientGen.Document ClientGen.Document.Value ClientGen.Schema ClientGen.Text

/-- The names that no parameter has yet, each once. -/
def undeclared (declared : List Parameter) (names : List String) : List String :=
  (names.filter fun name => !Parameter.named declared (.str name)).eraseDups

/-- The declared parameters, and those for the names that are missing. -/
def completed (declared : List Parameter) (names : List String) : List Parameter :=
  declared ++ (undeclared declared names).map Endpoint.placeholderParameter

variable {declared : List Parameter} {names : List String} {name : String}

theorem mem_undeclared_iff :
    name ∈ undeclared declared names ↔ name ∈ names ∧ Parameter.named declared (.str name) = false := by
  rw [undeclared, List.mem_eraseDups, List.mem_filter, Bool.not_eq_true']

theorem named_iff {ps : List Parameter} :
    Parameter.named ps (.str name) = true ↔ ∃ p ∈ ps, p.name = .str name := by
  rw [Parameter.named, List.any_eq_true]
  exact exists_congr fun _ => and_congr_right fun _ => beq_str

/-- A name has a parameter if it is declared or one of the names. -/
theorem named_completed_iff :
    Parameter.named (completed declared names) (.str name) = true ↔
      Parameter.named declared (.str name) = true ∨ name ∈ names := by
  have hAdded : Parameter.named ((undeclared declared names).map Endpoint.placeholderParameter)
      (.str name) = true ↔ name ∈ undeclared declared names := by
    rw [named_iff]
    constructor
    · rintro ⟨p, hp, hName⟩
      obtain ⟨added, hAdded, rfl⟩ := List.mem_map.mp hp
      exact Value.str.inj hName ▸ hAdded
    · exact fun hMem => ⟨_, List.mem_map_of_mem hMem, rfl⟩
  have hSplit : Parameter.named (completed declared names) (.str name) =
      (Parameter.named declared (.str name) || Parameter.named ((undeclared declared names).map
        Endpoint.placeholderParameter) (.str name)) := List.any_append
  rw [hSplit, Bool.or_eq_true, hAdded, mem_undeclared_iff]
  cases Parameter.named declared (.str name) with
  | true => exact ⟨fun _ => Or.inl rfl, fun _ => Or.inl rfl⟩
  | false => exact or_congr_right (and_iff_left rfl)

/-- Going on with a further name adds a parameter for it unless there is one. -/
theorem completed_snoc :
    completed declared (names ++ [name]) =
      if Parameter.named (completed declared names) (.str name) then completed declared names
      else completed declared names ++ [Endpoint.placeholderParameter name] := by
  have hOnce : undeclared declared (names ++ [name]) =
      if Parameter.named (completed declared names) (.str name) then undeclared declared names
      else undeclared declared names ++ [name] := by
    rw [undeclared, List.filter_append]
    cases hDeclared : Parameter.named declared (.str name) with
    | true =>
      have hNone : [name].filter (fun name => !Parameter.named declared (.str name)) = [] :=
        List.filter_cons_of_neg (by simp [hDeclared])
      rw [hNone, List.append_nil, if_pos (named_completed_iff.mpr (Or.inl hDeclared)), undeclared]
    | false =>
      have hOne : [name].filter (fun name => !Parameter.named declared (.str name)) = [name] :=
        List.filter_cons_of_pos (by simp [hDeclared])
      have hSame : name ∈ names.filter (fun name => !Parameter.named declared (.str name)) ↔
          Parameter.named (completed declared names) (.str name) = true := by
        rw [named_completed_iff, List.mem_filter, hDeclared]
        simp
      rw [hOne, eraseDups_snoc, undeclared]
      exact if_congr hSame rfl rfl
  rw [completed, hOnce]
  split
  · rfl
  · rw [List.map_append, ← List.append_assoc]
    rfl

/-- **Placeholders.** The names of a path are gone through without a fault, and complete the parameters. -/
theorem addPlaceholders_outcome (label : String) (declared : List Parameter) (names : List String) :
    (names.foldlM (Endpoint.addPlaceholder label) declared).outcome = .ok (completed declared names) := by
  induction names using List.reverseRecOn with
  | nil => simp [completed, undeclared, Journal.outcome_pure]
  | append_singleton names name ih =>
    rw [Journal.outcome_foldlM] at ih ⊢
    rw [List.foldlM_append, ih, ok_bind, List.foldlM_cons, completed_snoc, Endpoint.addPlaceholder]
    split <;> rfl

theorem IsReadFrom.pathParameters_eq {settings : Settings} {method : String}
    {path operation pathLevel : Value} {d : Declarations} {e : Endpoint}
    (h : IsReadFrom settings method path operation pathLevel d e) :
    e.pathParameters = completed d.declared.path (Path.placeholders e.path.toList) := by
  have hPlaceholders := h.pathParameters
  rw [addPlaceholders_outcome] at hPlaceholders
  exact (Except.ok.inj hPlaceholders).symm

/-- The path parameters of an operation are those that it and its path item declare, completed by the
placeholders of its path, and its segments are those of the path. -/
theorem exists_declared_of_ofOperation {settings : Settings} {method : String}
    {path operation pathLevel : Value} {e : Endpoint}
    (h : (Endpoint.ofOperation settings method path operation pathLevel).outcome = .ok e) :
    ∃ label own declared, Endpoint.parameterList (operation.field? "parameters") label = .ok own ∧
      (declaredParameters pathLevel own label).outcome = .ok declared ∧
      e.pathParameters = completed declared.path (Path.placeholders e.path.toList) ∧
      e.segments = Path.segmentsOf e.path := by
  obtain ⟨d, hRead⟩ := exists_isReadFrom h
  exact ⟨d.label, d.own, d.declared, hRead.own, hRead.declared, hRead.pathParameters_eq, hRead.segments⟩

end ClientGen.Api
