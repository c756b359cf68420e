import CliproxyUsage.Python.Text

/-! # Display keys

People are shown as redacted API keys and credentials as redacted sources; raw values that redact
alike share one display key. An empty model id or source is shown as `emptyKey`.
-/

namespace CliproxyUsage

def emptyKey : String := "<empty>"

/-- Display and pricing key for a model id; an empty id becomes `emptyKey`. -/
def modelKey (model : String) : String := if model = "" then emptyKey else model

/-- Redact an API key: the first and last of three or more dash-parts, or the last four characters. -/
def redactKey (key : String) : String :=
  match Python.split '-' key with
  | first :: _ :: third :: rest => first ++ "-*******-" ++ rest.getLastD third
  | _ => "*******" ++ Python.lastChars 4 (Python.removeHead "*******" key)

/-- Redact a credential source; email-like and already masked values pass through. -/
def redactSource (source : String) : String :=
  if source = "" ∨ source = emptyKey then emptyKey
  else if Python.contains "***" source then source
  else if Python.contains "@" source then source
  else redactKey source

example : redactKey "sk-team-0042" = "sk-*******-0042" ∧ redactSource "shared" = "*******ared" := by decide

end CliproxyUsage
