import ClientGen.Unit.Request
import ClientGen.Unit.Resource

/-!
# The text of methods

Behind its attributes the class of a request has methods only: a constructor if the request has
arguments, the method that builds the path, a builder for each slot that sends something, and at the end
the method that decodes the response. Here is written down what the text of the constructor and of a
builder is, and of the signature of a method of a resource. That a unit holds these texts, in this order
and with nothing between them, is then a fact about the unit.

Main results:

* `methodTexts_suffix` — a request unit ends with its methods.
* `methodTexts_apart` — no method is written twice.
* `methodLines_infix` — the methods of a resource are written in its unit.
-/

namespace ClientGen.Unit

open ClientGen.Text

/-- A method as it is written: its name, how its head goes on, and the lines after the head. -/
structure MethodText where
  name : String
  signature : String
  inside : List String

/-- Its lines, with an empty one before them. -/
def MethodText.lines (m : MethodText) : List String :=
  ["", "    def " ++ m.name ++ m.signature] ++ m.inside

/-- The line in a signature that takes an argument. -/
def takingLine (a : Argument) : String :=
  "        " ++ a.name ++ ": " ++ a.typeText ++ (if a.optional then " = None" else "") ++ ","

/-- A constructor takes each argument by its name and keeps it under this name. -/
def constructorText (arguments : List Argument) : MethodText where
  name := "__init__"
  signature := "("
  inside := ["        self,", "        *,"] ++ arguments.map takingLine ++ ["    ) -> None:"]
    ++ arguments.map fun a => "        self." ++ a.name ++ " = " ++ a.name

/-- The path is a formatted string. -/
def pathText (urlFormat : String) : MethodText where
  name := "resolve_endpoint"
  signature := "(self) -> str:"
  inside := ["        return f\x22" ++ urlFormat ++ "\x22"]

/-- A builder puts the value of each entry at its key. What has no value is left out in the end. -/
def builderText (b : Builder) : MethodText where
  name := b.method
  signature := "(self) -> dict[str, Any]:"
  inside := ["        values = \x7b"]
    ++ b.entries.map (fun entry => "            " ++ quoted entry.1 ++ ": " ++ entry.2 ++ ",")
    ++ ["        \x7d",
      "        return \x7bkey: value for key, value in values.items() if value is not None\x7d"]

/-- A method of a resource takes the arguments by their names. -/
def signatureLines (name : String) (arguments : List Argument) : List String :=
  ["    def " ++ name ++ "(", "        self,"]
    ++ (if arguments = [] then [] else "        *," :: arguments.map takingLine)
    ++ ["    ) -> httpx.Response:"]

/-- The methods of a request before the one that decodes its response. -/
def methodTexts (unit : Request) : List MethodText :=
  (if unit.arguments = [] then [] else [constructorText unit.arguments])
    ++ [pathText unit.urlFormat] ++ unit.builders.map builderText

-- ---------------------------------------------------------------------------
-- Requests
-- ---------------------------------------------------------------------------

theorem declarations_eq (arguments : List Argument) : Argument.declarations arguments =
    if arguments = [] then [] else "        *," :: arguments.map takingLine := by
  have hLine : ∀ a : Argument, "        " ++ a.declaration = takingLine a := by
    intro a
    unfold Argument.declaration takingLine
    simp only [String.append_assoc]
  unfold Argument.declarations
  simp only [hLine, List.isEmpty_iff]

theorem constructorLines_eq (arguments : List Argument) : Request.constructorLines arguments =
    (if arguments = [] then [] else [constructorText arguments]).flatMap MethodText.lines := by
  cases arguments with
  | nil => rfl
  | cons a rest =>
    have hHead : "    def " ++ "__init__" ++ "(" = "    def __init__(" := by decide +kernel
    rw [Request.constructorLines, declarations_eq, if_neg (List.cons_ne_nil _ _),
      if_neg (List.cons_ne_nil _ _), List.flatMap_singleton, MethodText.lines, constructorText, hHead]
    simp

theorem pathLines_eq (urlFormat : String) :
    ["", "    def resolve_endpoint(self) -> str:", "        return f\x22" ++ urlFormat ++ "\x22"] =
      (pathText urlFormat).lines := by
  have hHead : "    def " ++ "resolve_endpoint" ++ "(self) -> str:" =
      "    def resolve_endpoint(self) -> str:" := by decide +kernel
  rw [MethodText.lines, pathText, hHead]
  rfl

theorem builderLines_eq (b : Builder) : Request.builderLines b = (builderText b).lines := by
  rw [Request.builderLines, MethodText.lines, builderText]
  simp only [List.cons_append, List.nil_append]

theorem decoderHead_eq (result : String) : Request.decoderHead result =
    "    def " ++ "create_dto_from_response" ++ ("(self, response: httpx.Response) -> " ++ result ++ ":") := by
  have hStart : "    def " ++ "create_dto_from_response" ++ "(self, response: httpx.Response) -> " =
      "    def create_dto_from_response(self, response: httpx.Response) -> " := by decide +kernel
  rw [← String.append_assoc, ← String.append_assoc, hStart]
  rfl

/-- What decodes a response is a method. -/
theorem exists_decoderLines_eq (d : Decoder) :
    ∃ m : MethodText, m.name = "create_dto_from_response" ∧ Request.decoderLines d = m.lines := by
  have hMethod : ∀ result inside, ∃ m : MethodText, m.name = "create_dto_from_response" ∧
      "" :: Request.decoderHead result :: inside = m.lines := by
    intro result inside
    refine ⟨⟨"create_dto_from_response", "(self, response: httpx.Response) -> " ++ result ++ ":", inside⟩,
      rfl, ?_⟩
    rw [decoderHead_eq]
    rfl
  cases d with
  | object => exact hMethod _ _
  | array => exact hMethod _ _
  | raw => exact hMethod _ _

/-- **Methods.** A request unit ends with its methods. One may follow that decodes the response. -/
theorem methodTexts_suffix (unit : Request) : ∃ decoding : Option MethodText,
    (∀ m ∈ decoding, m.name = "create_dto_from_response") ∧
      (methodTexts unit ++ decoding.toList).flatMap MethodText.lines <:+ unit.lines := by
  obtain ⟨decoding, hName, hDecoding⟩ : ∃ decoding : Option MethodText,
      (∀ m ∈ decoding, m.name = "create_dto_from_response") ∧
        (unit.decoder.map Request.decoderLines).getD [] = decoding.toList.flatMap MethodText.lines := by
    cases unit.decoder with
    | none => exact ⟨none, nofun, rfl⟩
    | some d =>
      obtain ⟨m, hName, hLines⟩ := exists_decoderLines_eq d
      refine ⟨some m, ?_, ?_⟩
      · rintro _ ⟨⟩
        exact hName
      · simpa using hLines
  refine ⟨decoding, hName, ?_⟩
  have hBuilders : unit.builders.flatMap Request.builderLines =
      (unit.builders.map builderText).flatMap MethodText.lines := by
    rw [List.flatMap_map]
    exact congrArg unit.builders.flatMap (funext builderLines_eq)
  unfold Request.lines methodTexts
  rw [hDecoding, hBuilders, pathLines_eq, constructorLines_eq, List.flatMap_append, List.flatMap_append,
    List.flatMap_append, List.flatMap_singleton]
  simp only [List.append_assoc]
  -- documentation, imports and attributes come first
  iterate 6 refine List.suffix_append_of_suffix ?_
  exact List.suffix_rfl

/-- Each slot has its own builder. -/
theorem builders_sublist (arguments : List Argument) :
    ((Request.buildersOf arguments).map Builder.method).Sublist (Request.builderMethods.map Prod.snd) := by
  unfold Request.buildersOf
  refine (List.filter_sublist.map _).trans ?_
  rw [List.map_map]
  exact List.Sublist.refl _

/-- No method is written twice. -/
theorem methodTexts_apart {unit : Request} (hBuilders : unit.builders = Request.buildersOf unit.arguments)
    {decoding : Option MethodText} (hName : ∀ m ∈ decoding, m.name = "create_dto_from_response") :
    ((methodTexts unit ++ decoding.toList).map MethodText.name).Nodup := by
  have hConstructor : ((if unit.arguments = [] then [] else [constructorText unit.arguments]).map
      MethodText.name).Sublist ["__init__"] := by
    split
    · exact List.nil_sublist _
    · exact List.Sublist.refl _
  have hDecoding : (decoding.toList.map MethodText.name).Sublist ["create_dto_from_response"] := by
    cases decoding with
    | none => exact List.nil_sublist _
    | some m =>
      have hOnly : (some m).toList.map MethodText.name = ["create_dto_from_response"] :=
        congrArg (fun name => [name]) (hName m rfl)
      exact hOnly ▸ List.Sublist.refl _
  have hBuilding := builders_sublist unit.arguments
  rw [← hBuilders] at hBuilding
  have hAll := ((hConstructor.append (List.Sublist.refl ["resolve_endpoint"])).append hBuilding).append
    hDecoding
  refine List.Nodup.sublist ?_ (by decide : (["__init__"] ++ ["resolve_endpoint"] ++
    Request.builderMethods.map Prod.snd ++ ["create_dto_from_response"]).Nodup)
  rw [methodTexts, List.map_append, List.map_append, List.map_append, List.map_map]
  exact hAll

-- ---------------------------------------------------------------------------
-- Resources
-- ---------------------------------------------------------------------------

theorem signatureLines_infix (m : ResourceMethod) :
    signatureLines m.name m.arguments <:+: Resource.methodLines m := by
  rw [signatureLines, Resource.methodLines, ← declarations_eq]
  simp only [List.append_assoc]
  exact ⟨_, _, by simp only [List.append_assoc]; rfl⟩

/-- The methods of a resource are written in its unit. -/
theorem methodLines_infix {r : Resource} {m : ResourceMethod} (hm : m ∈ r.methods) :
    Resource.methodLines m <:+: r.lines := by
  have hAll : ∀ methods, m ∈ methods → Resource.methodLines m <:+: Resource.methodsLines methods := by
    intro methods hm
    fun_induction Resource.methodsLines methods with
    | case1 => cases hm
    | case2 =>
      obtain rfl := List.mem_singleton.mp hm
      exact List.infix_rfl
    | case3 first more _ ih =>
      rcases List.mem_cons.mp hm with rfl | hm
      · exact (List.prefix_append _ _).isInfix
      · exact (ih hm).trans ⟨Resource.methodLines first ++ [""], [], by simp⟩
  refine (hAll r.methods hm).trans ?_
  unfold Resource.lines
  exact (List.suffix_append _ _).isInfix

end ClientGen.Unit
