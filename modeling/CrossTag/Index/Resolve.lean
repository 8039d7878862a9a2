import CrossTag.Index.Basic

/-!
# Resolving tags

Resolving a tag against an index finds the entries it refers to: for a query those that answer
it, for any other tag those of the same name that it can see. The entries found are in the
order of the index. Navigation then takes the one after or before the tag itself, which is
found among them by its location; at either end it stops, or goes on at the other end if it is
cyclic. Queries have no place of their own, so for them navigation is given up with a warning.
-/

namespace CrossTag

/-- Which of the entries found are wanted. -/
inductive Mode
  | all
  | next
  | prev
deriving DecidableEq, Repr

/-- Why a tag cannot be resolved. -/
inductive ResolveError
  | noTagAt (loc : Location)
  | ambiguous (loc : Location)
  | conflictingFlags
  | invalidSearch (cause : PatternError)
deriving DecidableEq, Repr

def ResolveError.message : ResolveError → String
  | noTagAt loc => "no tag at " ++ loc.render
  | ambiguous loc => "more than one tag at " ++ loc.render
  | conflictingFlags => "--next and --prev are mutually exclusive"
  | invalidSearch cause => "invalid search tag: " ++ cause.message

/-- What the user asked for. -/
structure ResolveOptions where
  next : Bool := false
  prev : Bool := false
  cyclic : Bool := false
deriving DecidableEq, Repr

/-- The mode that the flags stand for. -/
def ResolveOptions.mode (options : ResolveOptions) : Except ResolveError Mode :=
  match options.next, options.prev with
  | true, true => .error .conflictingFlags
  | true, false => .ok .next
  | false, true => .ok .prev
  | false, false => .ok .all

/-- The entries found, and warnings. -/
structure Resolution where
  entries : List Entry
  warnings : List String
deriving DecidableEq

/-- The warning that navigation was given up. -/
def navigationIgnored : String :=
  "--next and --prev are ignored when resolving a search tag"

/-- The positions of the entries at a location, counted from `start`. -/
def positionsAt (loc : Location) : (start : Nat) → List Entry → List Nat
  | _, [] => []
  | start, e :: es =>
    if e.loc = loc then start :: positionsAt loc (start + 1) es
    else positionsAt loc (start + 1) es

/-- The entry one step away from a position, without going round. -/
def neighbour? (found : List Entry) (mode : Mode) (position : Option Nat) : Option Entry :=
  match mode, position with
  | .next, some i => found[i + 1]?
  | .prev, some (i + 1) => found[i]?
  | _, _ => none

/-- Where navigation goes on when it has run off an end. -/
def farEnd? (found : List Entry) : Mode → Option Entry
  | .prev => found.getLast?
  | _ => found.head?

/-- Picks from the entries found, relative to a location. -/
def navigate (found : List Entry) (loc : Location) (mode : Mode) (cyclic : Bool) :
    Except ResolveError (List Entry) :=
  match mode, positionsAt loc 0 found with
  | .all, _ => .ok found
  | _, _ :: _ :: _ => .error (.ambiguous loc)
  | mode, positions =>
    match neighbour? found mode positions.head? with
    | some e => .ok [e]
    | none => .ok (if cyclic then (farEnd? found mode).toList else [])

namespace Index

/-- The entries that a tag other than a query refers to. -/
def referents (index : Index) (what : Entry) : List Entry :=
  index.entries.filter fun e => e.name == what.name && e.isReferredBy what

/-- Resolves a tag. -/
def resolve (index : Index) (what : Entry) (options : ResolveOptions) :
    Except ResolveError Resolution := do
  let mode ← options.mode
  if what.isSearch then
    let query ← what.query.mapError .invalidSearch
    return ⟨index.entries.filter query.accepts, if mode = .all then [] else [navigationIgnored]⟩
  else
    let entries ← navigate (index.referents what) what.loc mode options.cyclic
    return ⟨entries, []⟩

end Index

end CrossTag
