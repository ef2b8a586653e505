/-!
JSON values as documents write them: the members of an object keep their order
and may repeat a key, and a number keeps the distinction between integer
literals and all others.
-/

namespace MaterialGraph

/-- A text is absent, as a value or as a key, when its escapes name surrogates
that form no character: the document is well formed but the text unreadable. -/
inductive Json
  | null
  | bool (value : Bool)
  | int (value : Int)
  | real (literal : String)
  | text (value : Option String)
  | array (items : List Json)
  | object (members : List (Option String × Json))
deriving Inhabited

end MaterialGraph
