import DocStore.Build.Builder
import DocStore.Digest.Sink
import DocStore.Folder
import DocStore.Format.File
import DocStore.Journal.Basic

/-!
Sealed databases: what a builder stores, as bytes in memory or written to a sink. A sink gets
the header, the segments through a digesting sink, and the digest of what that one passed on, and
is flushed.
-/

namespace DocStore

namespace SealedDatabase

def bytes (s : SealedDatabase) : Bytes := File.form s.region

/-- The length of the stored form. A region is in memory, and header and digest fit beside it. -/
def size (s : SealedDatabase) : Nat := File.headerLength + s.region.length + Sha256.width

variable {σ : Type}

/-- Writes the stored form to a sink, as far as it takes it. -/
def writeFrame (s : SealedDatabase) (sink : Sink σ) (state : σ) :
    Except (Failure String) Nat × σ :=
  match sink.writeAll state File.header with
  | (.error failure, state) => (.error failure, state)
  | (.ok (), state) =>
    match (Digested.sink sink).writeAll (.start state) s.region with
    | (.error failure, digested) => (.error failure, digested.inner)
    | (.ok (), digested) =>
      match sink.writeAll digested.inner digested.digest with
      | (.error failure, state) => (.error failure, state)
      | (.ok (), state) =>
        match sink.flush state with
        | (.error failure, state) => (.error failure, state)
        | (.ok (), state) => (.ok s.size, state)

/-- Writes the stored form to a sink, logs how that went, and answers the number of bytes. -/
def writeTo (s : SealedDatabase) (sink : Sink σ) (state : σ) (j : Journal) :
    Except (Failure String) Nat × σ × Journal :=
  let (scope, j) := LogScope.start j "DB_WRITE" []
  match s.writeFrame sink state with
  | (.ok written, state) =>
    let bytes := [("bytes", toString written)]
    let j := (scope.finish j (.complete bytes)).logEvent .written bytes
    (.ok written, state, j)
  | (.error (.refused error), state) =>
    (.error (.refused error), state, scope.finish j (.failed error))
  | (.error (.fault cause), state) => (.error (.fault cause), state, scope.finish j .abandoned)

/-- Writes the stored form to a file of a folder. -/
def writeFile (s : SealedDatabase) (folder : Folder) (name : String) (j : Journal) :
    Except (Failure String) Nat × Folder × Journal :=
  match folder.write name [] with
  | .error error => (.error (.refused error), folder, j)
  | .ok created =>
    let (result, file, j) := s.writeTo BoundedSink.sink .unbounded j
    match result, created.write name file.taken.toList with
    | .ok written, .ok folder => (.ok written, folder, j)
    | .error failure, _ => (.error failure, created, j)
    | _, .error error => (.error (.refused error), created, j)

end SealedDatabase

namespace Builder

def finish (b : Builder) (j : Journal) : Except (Failure BuildError) SealedDatabase × Journal :=
  match b.freeze with
  | .ok s =>
    (.ok s, j.logEvent .sealed [("documents", toString s.documents),
      ("fields", toString s.fields), ("bytes", toString s.size)])
  | .error failure => (.error failure, j)

end Builder

end DocStore
