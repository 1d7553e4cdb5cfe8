/-!
# Documents

A document is a tree of texts, lists and mappings, as it is written in proof scripts. A text
that is not quoted may also stand for nothing at all.
-/

namespace Turnstile.Document

/-- A part of a document. -/
inductive Node where
  /-- A text; `quoted` says that it was written in quotation marks. -/
  | text (value : String) (quoted : Bool)
  /-- A list. -/
  | list (items : List Node)
  /-- Texts with what they are mapped to, in the order of writing. -/
  | mapping (entries : List (String × Node))
  deriving Repr, Inhabited

namespace Node

/-- Nothing. -/
def null : Node := text "" false

/-- Whether a part stands for nothing. -/
def isNull : Node → Bool
  | text value quoted => !quoted && ["", "~", "null", "Null", "NULL"].contains value
  | _ => false

end Node

end Turnstile.Document
