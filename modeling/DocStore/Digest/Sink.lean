import DocStore.Digest.Sha256
import DocStore.Fault

/-!
Sinks: receivers of bytes that may take fewer bytes than they are offered, or fail. Writing all
of a byte string offers again what was not taken, until nothing is left or the sink takes
nothing. Flushing asks a sink to bring what it took to where it belongs, which may fail as well.
A digesting sink passes bytes on and digests those, and only those, that were taken. It counts
them in 64 bits, and meets a fault when they are too many for that.
-/

namespace DocStore

/-- A receiver of bytes with states `σ`. -/
structure Sink (σ : Type) where
  /-- Offers bytes, again where that was interrupted; answers how many were taken, or that the
  sink failed. -/
  offer : σ → Bytes → Except (Failure String) Nat × σ
  /-- Brings what was taken to where it belongs. No bytes are taken on the way. -/
  flush : σ → Except (Failure String) Unit × σ
  /-- No sink takes more than it is offered. -/
  taken_le : ∀ state bytes count state',
    offer state bytes = (.ok count, state') → count ≤ bytes.length

namespace Sink

variable {σ : Type}

/-- What a sink that takes nothing of something answers. -/
def stuck : String := "failed to write whole buffer"

/-- Offers bytes until all are taken. -/
def writeAll (sink : Sink σ) (state : σ) (bytes : Bytes) :
    Except (Failure String) Unit × σ :=
  if bytes.isEmpty then
    (.ok (), state)
  else
    match sink.offer state bytes with
    | (.error failure, state) => (.error failure, state)
    | (.ok 0, state) => (.error (.refused stuck), state)
    | (.ok (count + 1), state) => writeAll sink state (bytes.drop (count + 1))
termination_by bytes.length
decreasing_by
  have : bytes ≠ [] := by simp_all
  have := List.length_pos_iff.mpr this
  simp only [List.length_drop]
  omega

/-- Writes byte strings one after the other, also after one that was not written. Answers for
each how that went and the state after it. -/
def writeEach (sink : Sink σ) (state : σ) : List Bytes → List (Except (Failure String) Unit × σ)
  | [] => []
  | bytes :: rest =>
    let written := sink.writeAll state bytes
    written :: writeEach sink written.2 rest

end Sink

/-- The state of a digesting sink. -/
structure Digested (σ : Type) where
  inner : σ
  hasher : Sha256.State
  /-- The number of bytes taken, as 64 bits count them. -/
  written : Nat

namespace Digested

variable {σ : Type}

/-- Nothing written yet. -/
def start (inner : σ) : Digested σ := ⟨inner, .initial, 0⟩

def digest (state : Digested σ) : Bytes := state.hasher.finish

/-- Passes bytes on to a sink, digests what it takes, and counts that last. -/
def sink (inner : Sink σ) : Sink (Digested σ) where
  offer state bytes :=
    match inner.offer state.inner bytes with
    | (.ok count, next) =>
      let digested : Digested σ :=
        { state with inner := next, hasher := state.hasher.update (bytes.take count) }
      match addSizes state.written count with
      | .ok written => (.ok count, { digested with written })
      | .error cause => (.error (.fault cause), digested)
    | (.error failure, next) => (.error failure, { state with inner := next })
  flush state :=
    let (answer, next) := inner.flush state.inner
    (answer, { state with inner := next })
  taken_le := by
    intro state bytes count state' answer
    split at answer
    · rename_i taken next offered
      split at answer
      · cases answer
        exact inner.taken_le _ _ _ _ offered
      · cases answer
    · cases answer

end Digested

/-- The state of a sink that keeps what it takes: at most `chunk?` bytes of each offer, and
`room?` bytes altogether. -/
structure BoundedSink where
  chunk? : Option Nat
  room? : Option Nat
  taken : Array UInt8

namespace BoundedSink

def unbounded : BoundedSink := ⟨none, none, #[]⟩

/-- What a full sink answers. -/
def full : String := "sink full"

/-- The number of bytes of an offer that are taken. -/
def accepted (state : BoundedSink) (offered : Nat) : Nat :=
  let room := state.room?.elim offered fun room => min offered (room - state.taken.size)
  state.chunk?.elim room fun chunk => min room chunk

theorem accepted_le (state : BoundedSink) (offered : Nat) : state.accepted offered ≤ offered := by
  unfold accepted
  cases state.chunk? <;> cases state.room? <;> simp only [Option.elim] <;> omega

/-- Takes what fits; something offered of which nothing fits is a failure. -/
def sink : Sink BoundedSink where
  offer state bytes :=
    let count := state.accepted bytes.length
    if count = 0 ∧ bytes ≠ [] then
      (.error (.refused full), state)
    else
      (.ok count, { state with taken := state.taken ++ (bytes.take count).toArray })
  flush state := (.ok (), state)
  taken_le := by
    intro state bytes count state' answer
    simp only at answer
    split at answer
    · simp at answer
    · simp only [Prod.mk.injEq, Except.ok.injEq] at answer
      exact answer.1 ▸ accepted_le state bytes.length

end BoundedSink

end DocStore
