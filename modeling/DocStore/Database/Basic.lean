import DocStore.Database.Snapshot
import DocStore.Engine
import DocStore.Error
import DocStore.Folder
import DocStore.Settings.Basic

/-!
Opening databases, from memory or from a file. Settings are checked first, then the bytes are
read. How an opening went is counted in a registry and logged.
-/

namespace DocStore

/-- An open database. -/
structure Database where
  file : View
  snapshot : Snapshot
  /-- The number of its pool of scratch sets. -/
  pool : Nat
  /-- How many scratch sets one query may hold. -/
  setsPerQuery : Nat
  /-- Where it is counted. -/
  registry : Registry

namespace Database

def documents (db : Database) : Nat := db.snapshot.documents

def payload? (db : Database) (document : Nat) : Except Fault (Option View) :=
  db.snapshot.payloads.get? document

def size (db : Database) : Nat := db.file.size

def isMapped (db : Database) : Bool := db.file.mapped

/-- The origin that is logged for bytes in memory. -/
def memory : String := "<memory>"

/-- Checks the settings, takes the bytes and reads them. -/
def load (settings : Settings) (contents : Except String View) :
    Except (Failure StoreError) (View × Snapshot) := do
  match settings.validate with
  | .error error => refuse (StoreError.settings error)
  | .ok () =>
    match contents with
    | .error reason => refuse (StoreError.file reason)
    | .ok file =>
      match Snapshot.decode file settings.verifyDigest with
      | .error failure => throw (failure.map StoreError.format)
      | .ok snapshot => return (file, snapshot)

/-- Counts and logs an opening that succeeded. -/
def reportOpened (db : Database) (origin : String) (e : Engine) : Engine :=
  (e.modifyMetrics db.registry (·.recordOpen db.size)).logEvent .opened
    [("path", origin), ("documents", toString db.documents), ("bytes", toString db.size),
      ("filterable", toString db.snapshot.filters.length),
      ("sortable", toString db.snapshot.sorts.length), ("mapped", toString db.isMapped)]

/-- Counts and logs an opening that was refused. -/
def reportFailed (error : StoreError) (origin : String) (registry : Registry) (e : Engine) :
    Engine :=
  let e := e.modifyMetrics registry (·.recordOpenFailure)
  let e := if error = .format .digestMismatch then
      e.logEvent .digestMismatch [("path", origin)]
    else e
  e.logEvent .openFailed [("path", origin), ("code", error.code), ("reason", error.text)]

/-- Opens a database and counts that in a registry. -/
def openWith (origin : String) (settings : Settings) (contents : Except String View)
    (registry : Registry) (e : Engine) : Except (Failure StoreError) Database × Engine :=
  let (scope, journal) := LogScope.start e.journal "DB_LOAD" [("path", origin)]
  let e := { e with journal }
  match load settings contents with
  | .ok (file, snapshot) =>
    let (pool, e) := e.addPool (.empty snapshot.documents settings.concurrentSets)
    let db : Database := { file, snapshot, pool, setsPerQuery := settings.setsPerQuery, registry }
    (.ok db, (db.reportOpened origin e).modifyJournal (scope.finish · (.complete [])))
  | .error (.refused error) =>
    (.error (.refused error),
      (reportFailed error origin registry e).modifyJournal
        (scope.finish · (.failedFatally error.text)))
  | .error (.fault cause) =>
    (.error (.fault cause), e.modifyJournal (scope.finish · .abandoned))

def openMemory (bytes : Bytes) (settings : Settings) (registry : Registry) (e : Engine) :
    Except (Failure StoreError) Database × Engine :=
  openWith memory settings (.ok (View.ofBytes bytes)) registry e

/-- Opens a file of a folder. The file stays on disk unless the settings say otherwise. -/
def openFile (folder : Folder) (name : String) (settings : Settings) (registry : Registry)
    (e : Engine) : Except (Failure StoreError) Database × Engine :=
  let contents := (folder.read name).map fun bytes =>
    if settings.loadIntoMemory then View.ofBytes bytes else View.ofMapped bytes
  openWith name settings contents registry e

end Database

end DocStore
