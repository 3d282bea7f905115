/-!
# Failures of reading YAML
-/

namespace ClientGen.Document.Yaml

/-- Why a text has no value. -/
inductive Failure where
  /-- the text is not YAML, or uses a tag that is not known -/
  | malformed
  /-- a scalar has no value under its tag -/
  | content (message : String)
  /-- a text tagged as a truth value is none of the words for one -/
  | word
  /-- an empty text is tagged as a number -/
  | noDigits
  /-- a text tagged as a time does not look like one -/
  | noTime
  deriving DecidableEq, Repr

/-- What is written in place of the reason that a text is not YAML. -/
def malformedText : String := "<yaml>"

end ClientGen.Document.Yaml
