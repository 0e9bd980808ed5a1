import DocStore.Severity

/-!
Why settings are refused.
-/

namespace DocStore

/-- Why settings cannot be used. -/
inductive SettingsError where
  | perQueryNotPositive
  | concurrentNotPositive
  | perQueryAboveConcurrent (perQuery concurrent : Nat)
  /-- The file cannot be read. -/
  | unreadable (path cause : String)
  /-- The file holds no settings. -/
  | unparsable (path cause : String)
  /-- Any other reason, in its own words. -/
  | other (reason : String) (cause : Option String)
deriving DecidableEq, Repr

namespace SettingsError

def code (_ : SettingsError) : String := "SEAL_CONFIG_INVALID"

/-- Settings errors are never fatal. -/
def severity (_ : SettingsError) : Severity := .error

def message : SettingsError → String
  | perQueryNotPositive => "max_sets_per_query must be positive"
  | concurrentNotPositive => "max_concurrent_sets must be positive"
  | perQueryAboveConcurrent perQuery concurrent =>
    s!"max_sets_per_query ({perQuery}) exceeds max_concurrent_sets ({concurrent})"
  | unreadable path _ => s!"cannot read {path}"
  | unparsable path _ => s!"cannot parse {path}"
  | other reason _ => reason

/-- The error that this one comes from. -/
def cause? : SettingsError → Option String
  | unreadable _ cause | unparsable _ cause => some cause
  | other _ cause => cause
  | perQueryNotPositive | concurrentNotPositive | perQueryAboveConcurrent _ _ => none

def text (e : SettingsError) : String :=
  s!"[{e.severity.name}] {e.code}: {e.message}" ++
    match e.cause? with
    | some cause => s!" (caused by: {cause})"
    | none => ""

end SettingsError

end DocStore
