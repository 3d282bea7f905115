import ClientGen.Api.Endpoint
import ClientGen.Proofs.Outcome
import ClientGen.Proofs.Document.Keys
import ClientGen.Proofs.Path.Placeholders

/-!
# What an endpoint is made of

The endpoint of an operation is read in many steps, any of which can fail. This module goes
through them once and says which part of the endpoint comes from which step.

Main results:

* `exists_isReadFrom` — the parts of an endpoint that was read.
-/

namespace ClientGen.Api

open ClientGen.Document ClientGen.Schema

/-- The declarations that an operation makes itself, and the parameters that these and those of its
path item describe. -/
structure Declarations where
  label : String
  own : Value
  declared : Declared

/-- What the success schema of an operation describes, if it has one. -/
def describedBy (settings : Settings) : Option Value → Journal Response
  | some schema => Response.ofSchema settings.tables.envelopeTargets schema
  | none => pure .none

/-- The response that an endpoint keeps. -/
def keptResponse : Response → Option Response
  | .none => none
  | held => some held

/-- The parts of an endpoint are those of its operation. -/
structure IsReadFrom (settings : Settings) (method : String) (path operation pathLevel : Value)
    (d : Declarations) (e : Endpoint) : Prop where
  method : Method.ofName? method = some e.method
  path : path = .str e.path
  segments : e.segments = Path.segmentsOf e.path
  own : Endpoint.parameterList (operation.field? "parameters") d.label = .ok d.own
  declared : (declaredParameters pathLevel d.own d.label).outcome = .ok d.declared
  pathParameters : ((Path.placeholders e.path.toList).foldlM (Endpoint.addPlaceholder d.label)
    d.declared.path).outcome = .ok e.pathParameters
  queryParameters : e.queryParameters = d.declared.query
  headerParameters : e.headerParameters = d.declared.header
  body : (requestBody ((operation.field? "requestBody").getD .null) d.label).outcome =
    .ok (e.contentType, e.bodyParameters)
  response : ∃ success held, Response.successSchema? operation = .ok success ∧
    (describedBy settings success).outcome = .ok held ∧ e.response = keptResponse held

/-- **The endpoint of an operation.** An endpoint that was read has the parts of its operation. -/
theorem exists_isReadFrom {settings : Settings} {method : String} {path operation pathLevel : Value}
    {e : Endpoint}
    (h : (Endpoint.ofOperation settings method path operation pathLevel).outcome = .ok e) :
    ∃ d, IsReadFrom settings method path operation pathLevel d e := by
  unfold Endpoint.ofOperation at h
  dsimp only at h
  split at h
  · rename_i httpMethod hMethod
    obtain ⟨tags, -, h⟩ := Journal.exists_of_bind_ok h
    obtain ⟨name, h⟩ := Journal.exists_of_ite_bind_bind_ok h
    obtain ⟨own, hOwn, h⟩ := Journal.exists_of_bind_ok h
    obtain ⟨declared, hDeclared, h⟩ := Journal.exists_of_bind_ok h
    split at h
    · obtain ⟨_, hThrow, -⟩ := Journal.exists_of_bind_ok h
      cases hThrow
    · obtain ⟨text, hText, h⟩ := Journal.exists_of_bind_ok h
      obtain ⟨pathParameters, hPlaceholders, h⟩ := Journal.exists_of_bind_ok h
      obtain ⟨⟨contentType, body⟩, hBody, h⟩ := Journal.exists_of_bind_ok h
      obtain ⟨success, hSuccess, h⟩ := Journal.exists_of_bind_ok h
      -- the last step is one of two, whether or not there is a schema
      split at h
      all_goals
        obtain ⟨held, hHeld, h⟩ := Journal.exists_of_bind_ok h
        cases h
        exact ⟨⟨_, own, declared⟩, hMethod, Value.asText_ok hText, rfl, hOwn, hDeclared, hPlaceholders,
          rfl, rfl, hBody, _, held, hSuccess, hHeld, rfl⟩
  · cases h

end ClientGen.Api
