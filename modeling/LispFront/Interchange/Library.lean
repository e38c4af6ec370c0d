import LispFront.Interchange.Datum

/-! What a library for JSON is asked to do. -/

namespace LispFront

/-- A library that writes data as JSON texts and reads texts as data of a declared type.
Where it fails it says why. -/
structure JsonLibrary where
  /-- How many brackets may be open at once in what is read. -/
  nestingLimit : Nat
  print (datum : Datum) : Except String String
  read {Name : Type} (types : Name → Declaration Name) (shape : Shape Name)
    (text : String) : Except String Datum
  /-- Reads a value inside a text, where no more than `levels` brackets may be opened. -/
  decode? {Name : Type} (types : Name → Declaration Name)
    (shape : Shape Name) (levels : Nat) (json : Json) : Option Datum

end LispFront
