import CrossTag.Index.Basic

/-!
# Filters

A filter selects entries by patterns for names and patterns for attributes. Without patterns
for names every name will do, otherwise one of them must match. Each pattern for attributes
must match one of the attributes as it is shown, `key` or `key=value`, with the location as the
attribute `loc`.
-/

namespace CrossTag

/-- Patterns for names and for attributes. -/
structure Filter where
  names : List Pattern
  attrs : List Pattern

namespace Filter

/-- Compiles a filter; names come first. -/
def compile (kind : PatternKind) (names attrs : List String) : Except PatternError Filter := do
  let names ← Pattern.compileAll kind names
  let attrs ← Pattern.compileAll kind attrs
  return ⟨names, attrs⟩

/-- The attributes of an entry as they are shown. -/
def shown (e : Entry) : List String :=
  e.attrsWithLoc.pairs.map fun (key, value) => Attrs.showPair key value

/-- True if the filter selects the entry. -/
def accepts (f : Filter) (e : Entry) : Bool :=
  (f.names.isEmpty || Pattern.anyMatch f.names e.name)
    && f.attrs.all fun pattern => (shown e).any pattern.isMatch

end Filter

end CrossTag
