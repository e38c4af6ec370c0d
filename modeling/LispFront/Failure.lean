import LispFront.Diagnostic

/-! Reasons for an operation to give no result at all. -/

namespace LispFront

inductive Failure where
  /-- Reading was to succeed without a diagnostic, and did not. -/
  | parse (diagnostics : List Diagnostic)
  /-- The text of a number, or of a node that is none, has no value. -/
  | invalidNumber (text : String)
  /-- A tree could not be exchanged as JSON. -/
  | serialization (message : String)
deriving DecidableEq, Repr

namespace Failure

def message : Failure → String
  | parse diagnostics =>
      "Parse failed with " ++ toString diagnostics.length ++ " diagnostic(s): " ++
        "; ".intercalate (diagnostics.map Diagnostic.message)
  | invalidNumber text => "Cannot evaluate " ++ text ++ " as a number"
  | serialization message => "Serialization error: " ++ message

instance : ToString Failure := ⟨message⟩

end Failure

end LispFront
