import CrossTag.Tag.Reader

/-!
# Elements

An element is the text of a tag as it was found in a file, before it is read as a tag. A list
of elements is read from the front, and the first one that is no tag is reported with its
text and its location.
-/

namespace CrossTag

/-- The text between two brackets and where it was found. -/
structure Element where
  text : String
  loc : Location
deriving DecidableEq, Repr

/-- An element that is no tag. -/
structure ElementError where
  element : Element
  cause : TagError
deriving DecidableEq, Repr

def ElementError.message (e : ElementError) : String :=
  "parse " ++ Text.quote e.element.text ++ "@" ++ e.element.loc.render ++ ": " ++ e.cause.message

namespace Element

/-- Reads one element as a tag. -/
def parse (e : Element) : Except ElementError Entry :=
  (Tag.parse e.text e.loc).mapError fun cause => ⟨e, cause⟩

/-- Reads all elements; the first one that is no tag is reported. -/
def parseAll (elements : List Element) : Except ElementError (List Entry) :=
  elements.mapM parse

end Element

end CrossTag
