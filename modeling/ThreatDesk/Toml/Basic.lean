import ThreatDesk.Number.Basic
import ThreatDesk.Toml.Moment

/-!
# TOML documents

Values, and the document as it is being built: its tables, and which of their keys can no longer be
declared or added to.
-/

namespace ThreatDesk

inductive Toml
  | bool (b : Bool)
  | integer (n : Int)
  | real (x : Binary64)
  | text (t : Text)
  | moment (m : Moment)
  | array (items : List Toml)
  | table (entries : List (Text × Toml))

namespace Toml

inductive Fault
  | malformed
  | tooLong (digits : Nat)
  | nested

abbrev Entries := List (Text × Toml)

abbrev Key := List Text

namespace Entries

def get? (name : Text) : Entries → Option Toml
  | [] => none
  | (k, v) :: entries => if k = name then some v else get? name entries

def set (name : Text) (value : Toml) : Entries → Entries
  | [] => [(name, value)]
  | (k, v) :: entries => if k = name then (k, value) :: entries else (k, v) :: set name value entries

/-- The entries after a change of the table at the end of `key`; missing tables are made. A key goes
on in the last table of an array if `throughArrays` is set, and through no other value. -/
def changeAt (throughArrays : Bool) (change : Entries → Option Entries) (entries : Entries) :
    Key → Option Entries
  | [] => change entries
  | k :: rest =>
    match get? k entries with
    | none => (changeAt throughArrays change [] rest).map fun t => set k (.table t) entries
    | some (.table inner) =>
      (changeAt throughArrays change inner rest).map fun t => set k (.table t) entries
    | some (.array items) =>
      if throughArrays then
        match items.getLast? with
        | some (.table inner) =>
          (changeAt throughArrays change inner rest).map fun t =>
            set k (.array (items.dropLast ++ [.table t])) entries
        | _ => none
      else none
    | some _ => none

def add? (name : Text) (value : Toml) (entries : Entries) : Option Entries :=
  if (get? name entries).isSome then none else some (entries ++ [(name, value)])

def addTable? (name : Text) (entries : Entries) : Option Entries :=
  match get? name entries with
  | none => some (entries ++ [(name, .array [.table []])])
  | some (.array items) => some (set name (.array (items ++ [.table []])) entries)
  | some _ => none

end Entries

/-- A document as far as it has been read. -/
structure Draft where
  entries : Entries
  header : Key
  /-- Keys that cannot be declared as tables again. -/
  declared : List Key
  /-- Keys that will be declared at the next header. -/
  pending : List Key
  /-- Keys of values written in one piece, to which nothing can be added. -/
  closed : List Key

namespace Draft

def empty : Draft := ⟨[], [], [], [], []⟩

def isDeclared (d : Draft) (key : Key) : Bool := d.declared.contains key

def isClosed (closed : List Key) (key : Key) : Bool := closed.any fun k => k.isPrefixOf key

def settle (d : Draft) : Draft := { d with declared := d.declared ++ d.pending, pending := [] }

def openTable (d : Draft) (key : Key) : Option Draft :=
  if d.isDeclared key || isClosed d.closed key then none
  else
    (d.entries.changeAt true some key).map fun entries =>
      { d with entries, header := key, declared := d.declared ++ [key] }

def openArrayTable (d : Draft) (key : Key) : Option Draft :=
  if isClosed d.closed key then none
  else
    let outside (k : Key) : Bool := !key.isPrefixOf k
    match key.getLast? with
    | none => none
    | some name =>
      (d.entries.changeAt true (Entries.addTable? name) key.dropLast).map fun entries =>
        { d with
          entries
          header := key
          declared := d.declared.filter outside ++ [key]
          closed := d.closed.filter outside }

def properPrefixes (key : Key) : List Key :=
  (List.range (key.length - 1)).map fun i => key.take (i + 1)

def isComposite : Toml → Bool
  | .array _ | .table _ => true
  | _ => false

def addValue (d : Draft) (key : Key) (value : Toml) : Option Draft :=
  let tables := (properPrefixes key).map fun k => d.header ++ k
  if tables.any d.isDeclared || isClosed d.closed (d.header ++ key.dropLast) then none
  else
    match key.getLast? with
    | none => none
    | some name =>
      (d.entries.changeAt true (Entries.add? name value) (d.header ++ key.dropLast)).map
        fun entries =>
          { d with
            entries
            pending := d.pending ++ tables
            closed := if isComposite value then d.closed ++ [d.header ++ key] else d.closed }

end Draft

end Toml

end ThreatDesk
