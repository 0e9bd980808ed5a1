import DocStore.Fault
import DocStore.Journal.Basic
import DocStore.Json.Parser
import DocStore.Settings.Error

/-!
Settings of a reader, by default or from a JSON file. A file holds an object, or an array with
the settings in their order; what it leaves out keeps its default. Unknown names are ignored,
repeated ones are not, and no value is converted.
-/

namespace DocStore

/-- How databases are opened and how many scratch sets their queries may hold. -/
structure Settings where
  /-- Whether a file is read into memory rather than mapped. -/
  loadIntoMemory : Bool
  /-- Whether the digest of a file is checked. -/
  verifyDigest : Bool
  /-- How many scratch sets one query may hold. -/
  setsPerQuery : Nat
  /-- How many scratch sets all queries of a database may hold. -/
  concurrentSets : Nat
deriving DecidableEq, Repr

namespace Settings

/-- What holds without a file. -/
def standard : Settings := ⟨false, true, 16, 1024⟩

/-- Refuses quotas of zero, and a quota of one query above that of all. -/
def validate (s : Settings) : Except SettingsError Unit :=
  if s.setsPerQuery = 0 then .error .perQueryNotPositive
  else if s.concurrentSets = 0 then .error .concurrentNotPositive
  else if s.concurrentSets < s.setsPerQuery then
    .error (.perQueryAboveConcurrent s.setsPerQuery s.concurrentSets)
  else .ok ()

/-- The same settings, but files are read into memory. -/
def inMemory (s : Settings) : Settings := { s with loadIntoMemory := true }

/-- The names of the settings in a file, in their order. -/
def names : List String :=
  ["load_into_memory", "verify_digest", "max_sets_per_query", "max_concurrent_sets"]

def json (s : Settings) : String :=
  let values := [toString s.loadIntoMemory, toString s.verifyDigest, toString s.setsPerQuery,
    toString s.concurrentSets]
  let members := List.zipWith (fun name value => s!"\"{name}\":{value}") names values
  "\x7b" ++ ",".intercalate members ++ "\x7d"

def boolOf? : Json.Tree → Option Bool
  | .bool value => some value
  | _ => none

/-- A size of a file: an integer without sign that 64 bits hold. -/
def sizeOf? : Json.Tree → Option Nat
  | .number numeral =>
    match numeral.integer? with
    | some (.signed value) => if value < 0 then none else some value.toInt.toNat
    | some (.unsigned value) => some value.toNat
    | _ => none
  | _ => none

/-- Settings with one of them, by its place, set to a value of a file. -/
def set? (s : Settings) : Nat → Json.Tree → Option Settings
  | 0, tree => (boolOf? tree).map fun value => { s with loadIntoMemory := value }
  | 1, tree => (boolOf? tree).map fun value => { s with verifyDigest := value }
  | 2, tree => (sizeOf? tree).map fun value => { s with setsPerQuery := value }
  | 3, tree => (sizeOf? tree).map fun value => { s with concurrentSets := value }
  | _, _ => none

def ofMembers? (s : Settings) (seen : List Nat) :
    List (List Json.TextUnit × Json.Tree) → Option Settings
  | [] => some s
  | (name, tree) :: rest => do
    match names.idxOf? (← Json.text? name) with
    | some place =>
      if seen.contains place then
        none
      else
        ofMembers? (← s.set? place tree) (place :: seen) rest
    | none => ofMembers? s seen rest

def ofJson? : Json.Tree → Option Settings
  | .object members => ofMembers? standard [] members
  | .array items =>
    items.zipIdx.foldlM (fun s (tree, place) => s.set? place tree) standard
  | _ => none

/-- Settings from the text of a file, checked. -/
def parse (path text : String) : Except SettingsError Settings := do
  match (Json.parse? text).bind ofJson? with
  | some s =>
    s.validate
    return s
  | none => throw (.unparsable path "invalid JSON")

/-- Settings from a file, or why it has none. Success is logged. -/
def load (j : Journal) (path : String) (contents : Except String String) :
    Except SettingsError Settings × Journal :=
  match contents with
  | .error cause => (.error (.unreadable path cause), j)
  | .ok text =>
    match parse path text with
    | .error error => (.error error, j)
    | .ok s =>
      (.ok s, j.logEvent .settingsLoaded
        [("path", path), ("load_into_memory", toString s.loadIntoMemory),
          ("verify_digest", toString s.verifyDigest),
          ("max_sets_per_query", toString s.setsPerQuery),
          ("max_concurrent_sets", toString s.concurrentSets)])

end Settings

end DocStore
