import DocStore.Build.Error
import DocStore.Format.Error
import DocStore.Pool.Error
import DocStore.Query.Error
import DocStore.Settings.Error

/-!
All errors of the library under one roof, for operations that can fail for several reasons.
-/

namespace DocStore

/-- Why an operation failed. -/
inductive StoreError where
  | format (error : FormatError)
  | pool (error : PoolError)
  | query (error : QueryError)
  | build (error : BuildError)
  | settings (error : SettingsError)
  /-- A file cannot be read or written. -/
  | file (reason : String)
deriving DecidableEq, Repr

namespace StoreError

def code : StoreError → String
  | format e => e.code
  | pool e => e.code
  | query e => e.code
  | build e => e.code
  | settings e => e.code
  | file _ => "SEAL_IO_ERROR"

/-- What an error says, without its code and severity. -/
def message : StoreError → String
  | format e => e.message
  | pool e => e.message
  | query e => e.message
  | build e => e.message
  | settings e => e.message
  | file reason => reason

def severity : StoreError → Severity
  | format e => e.severity
  | pool e => e.severity
  | query e => e.severity
  | build e => e.severity
  | settings e => e.severity
  | file _ => .fatal

def text : StoreError → String
  | format e => e.text
  | pool e => e.text
  | query e => e.text
  | build e => e.text
  | settings e => e.text
  | file reason => s!"I/O error: {reason}"

end StoreError

end DocStore
