/-!
# TOML values

A document is a table. Tables remember how they came about, since that decides whether a later line
may add to them. A number that cannot be read is no fault of the document, but it makes every value
that holds it unreadable.
-/

namespace FormWeave.Toml

inductive Origin
  | header
  /-- On the way to a table with a header. -/
  | implied
  | dotted
  | inlined
  deriving DecidableEq, Repr

/-- A value. Numbers and dates are only told apart from the rest. -/
inductive Value
  | string (text : String)
  | bool (value : Bool)
  | integer
  | float
  | datetime
  | unreadable
  | array (items : List Value)
  /-- An array whose tables have headers: the last one, and those in front of it, latest first. -/
  | tables (last : List (String × Value)) (earlier : List (List (String × Value)))
  | table (origin : Origin) (entries : List (String × Value))
  deriving Repr, Inhabited

abbrev Entries := List (String × Value)

mutual
def Value.isReadable : Value → Bool
  | .unreadable => false
  | .array items => itemsReadable items
  | .tables last earlier => entriesReadable last && tablesReadable earlier
  | .table _ entries => entriesReadable entries
  | .string _ | .bool _ | .integer | .float | .datetime => true

def itemsReadable : List Value → Bool
  | [] => true
  | item :: rest => item.isReadable && itemsReadable rest

def tablesReadable : List (List (String × Value)) → Bool
  | [] => true
  | entries :: rest => entriesReadable entries && tablesReadable rest

def entriesReadable : List (String × Value) → Bool
  | [] => true
  | (_, value) :: rest => value.isReadable && entriesReadable rest
end

namespace Entries

def replace (key : String) (value : Value) : Entries → Entries
  | [] => []
  | (k, v) :: rest => if k == key then (k, value) :: rest else (k, v) :: replace key value rest

/-- Entries with one more value under a dotted key, if nothing stands in the way. Tables on the way
are made; one that is there may be added to if it has no header of its own, and from then on it
counts as made by dotted keys. A key may lead through the last table of an array, but not end right
below it. -/
def assign (value : Value) : (path : List String) → Entries → Option Entries
  | [], _ => none
  | [key], entries =>
    if (entries.lookup key).isSome then none else some (entries ++ [(key, value)])
  | key :: next :: rest, entries =>
    match entries.lookup key with
    | none => do return entries ++ [(key, .table .dotted (← assign value (next :: rest) []))]
    | some (.table origin inner) =>
      if origin == .dotted || origin == .implied then do
        return replace key (.table .dotted (← assign value (next :: rest) inner)) entries
      else none
    | some (.tables last earlier) =>
      if rest.isEmpty then none
      else do return replace key (.tables (← assign value (next :: rest) last) earlier) entries
    | some _ => none

/-- Changes the table that a header path leads to; `last` does so for the last key of the path.
Tables on the way are made, and of an array of tables the last one is meant. -/
def atHeader (last : String → Entries → Option Entries) : (path : List String) → Entries →
    Option Entries
  | [], _ => none
  | [key], entries => last key entries
  | key :: next :: rest, entries =>
    match entries.lookup key with
    | none => do return entries ++ [(key, .table .implied (← atHeader last (next :: rest) []))]
    | some (.table origin inner) =>
      if origin == .inlined then none
      else do return replace key (.table origin (← atHeader last (next :: rest) inner)) entries
    | some (.tables inner earlier) => do
      return replace key (.tables (← atHeader last (next :: rest) inner) earlier) entries
    | some _ => none

def openTable (key : String) (entries : Entries) : Option Entries :=
  match entries.lookup key with
  | none => some (entries ++ [(key, .table .header [])])
  | some (.table .implied inner) => some (replace key (.table .header inner) entries)
  | some _ => none

def openElement (key : String) (entries : Entries) : Option Entries :=
  match entries.lookup key with
  | none => some (entries ++ [(key, .tables [] [])])
  | some (.tables last earlier) => some (replace key (.tables [] (last :: earlier)) entries)
  | some _ => none

def assignIn (path : List String) (value : Value) (key : String) (entries : Entries) :
    Option Entries :=
  match entries.lookup key with
  | some (.table origin inner) => do
    return replace key (.table origin (← assign value path inner)) entries
  | some (.tables last earlier) => do
    return replace key (.tables (← assign value path last) earlier) entries
  | _ => none

end Entries

inductive Statement
  | table (path : List String)
  | element (path : List String)
  | assign (path : List String) (value : Value)
  deriving Repr

structure Document where
  entries : Entries := []
  header : List String := []

def Document.add (document : Document) : Statement → Option Document
  | .table path => do
    let entries ← Entries.atHeader Entries.openTable path document.entries
    return { entries, header := path }
  | .element path => do
    let entries ← Entries.atHeader Entries.openElement path document.entries
    return { entries, header := path }
  | .assign path value => do
    let entries ← if document.header.isEmpty then Entries.assign value path document.entries
      else Entries.atHeader (Entries.assignIn path value) document.header document.entries
    return { document with entries }

end FormWeave.Toml
