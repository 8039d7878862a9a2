import CrossTag.Attrs
import CrossTag.Location
import CrossTag.Pattern.Basic

/-!
# Entries

An entry is one occurrence of a tag: its name, its attributes and its location. An entry
with a `search` attribute is not an occurrence but a query, whose name and attributes are
patterns of the kind that the attribute names.

Entries are ordered by name and then by location. Which entries a tag refers to depends on
their scopes: a scope that ends in a separator is a directory, any other scope is a file.
-/

namespace CrossTag

/-- One occurrence of a tag, or a query. -/
structure Entry where
  name : String
  attrs : Attrs
  loc : Location
deriving DecidableEq, Inhabited

namespace Entry

/-- The attribute that makes an entry a query. -/
def searchKey : String := "search"

/-- The attribute that restricts who may refer to an entry. -/
def scopeKey : String := "scope"

/-- The key under which patterns see the location. -/
def locKey : String := "loc"

/-- The scope, empty if the entry is visible everywhere. -/
def scope (e : Entry) : String :=
  (e.attrs.get? scopeKey).getD ""

/-- The kind of patterns of a query. -/
def search? (e : Entry) : Option String :=
  e.attrs.get? searchKey

/-- True if the entry is a query. -/
def isSearch (e : Entry) : Bool :=
  e.search?.isSome

/-- The value under a key, where `loc` always answers the location. -/
def lookup? (e : Entry) (key : String) : Option String :=
  if key = locKey then some e.loc.render else e.attrs.get? key

/-- The attributes together with the location under `loc`. -/
def attrsWithLoc (e : Entry) : Attrs :=
  e.attrs.insert locKey e.loc.render

/-- By name, then by location. -/
def canonicalCmp : Entry → Entry → Ordering :=
  compareLex (compareOn (·.name)) (compareOn (·.loc))

instance : Std.TransCmp canonicalCmp :=
  inferInstanceAs (Std.TransCmp (compareLex (compareOn fun e : Entry => e.name)
    (compareOn fun e : Entry => e.loc)))

/-- True if `a` does not come after `b`. -/
def canonicalLe (a b : Entry) : Bool :=
  (canonicalCmp a b).isLE

theorem canonicalLe_trans (a b c : Entry) (hab : canonicalLe a b = true)
    (hbc : canonicalLe b c = true) : canonicalLe a c = true :=
  Std.TransCmp.isLE_trans hab hbc

theorem canonicalLe_total (a b : Entry) : (canonicalLe a b || canonicalLe b a) = true := by
  have h : canonicalCmp b a = (canonicalCmp a b).swap := Std.OrientedCmp.eq_swap
  cases hab : canonicalCmp a b <;> simp [canonicalLe, h, hab]

/-! ### Scopes -/

/-- True if a path lies in a scope that is not empty: below it if it is a directory, and
equal to it if it is a file. -/
def isWithin (scope path : String) : Bool :=
  if Glob.isDirectory scope.toList then scope.toList.isPrefixOf path.toList else scope == path

/-- True if `them`, an entry of the same name, can refer to `e`. An unscoped entry is seen
from everywhere, unless `them` looks into a scope of its own only. A scoped entry is seen from
within its scope, where the scope of `them` stands for its place, or its path if it has
none. -/
def isReferredBy (e them : Entry) : Bool :=
  if e.scope.isEmpty then
    them.scope.isEmpty || isWithin them.scope e.loc.path
  else
    isWithin e.scope (if them.scope.isEmpty then them.loc.path else them.scope)

/-! ### Queries -/

/-- The compiled form of a query. -/
structure Query where
  /-- The pattern for names; without one every name fits. -/
  name : Option Pattern
  /-- The patterns for the values under some keys. -/
  attrs : List (String × Pattern)

/-- Compiles a query: the name, unless it is empty, and then the values of all attributes but
`search` in the order of their keys. -/
def query (e : Entry) : Except PatternError Query := do
  let kind ← PatternKind.parse (e.search?.getD "")
  let name ← if e.name.isEmpty then pure none else some <$> Pattern.compile kind e.name
  let attrs ← (e.attrs.pairs.filter (·.1 != searchKey)).mapM fun (key, value) => do
    return (key, ← Pattern.compile kind value)
  return ⟨name, attrs⟩

/-- True if an entry answers the query. Queries never do. -/
def Query.accepts (q : Query) (e : Entry) : Bool :=
  !e.isSearch
    && q.name.all (·.isMatch e.name)
    && q.attrs.all fun (key, pattern) => (e.lookup? key).any pattern.isMatch

end Entry

end CrossTag
