import DocStore.Build.Sealed
import DocStore.Proofs.Format.File

/-! What sinks take. Beside any sink a record can be kept of the bytes it takes, and the sink does
not notice. Of what is written all or a first part is taken, and the digesting sink digests just
the bytes on the record, however offers were cut short and whatever failed in between. -/
namespace DocStore

variable {σ τ : Type}

/-- A sink together with the bytes that it has taken. -/
structure Recorded (σ : Type) where
  inner : σ
  taken : Bytes

namespace Recorded

def start (inner : σ) : Recorded σ := ⟨inner, []⟩

@[simp] theorem taken_start (inner : σ) : (start inner).taken = [] := rfl

def sink (inner : Sink σ) : Sink (Recorded σ) where
  offer state bytes :=
    match inner.offer state.inner bytes with
    | (.ok count, next) => (.ok count, ⟨next, state.taken ++ bytes.take count⟩)
    | (.error failure, next) => (.error failure, { state with inner := next })
  flush state :=
    let (answer, next) := inner.flush state.inner
    (answer, { state with inner := next })
  taken_le := by
    intro state bytes count state' answer
    split at answer
    · rename_i taken next offered
      cases answer
      exact inner.taken_le _ _ _ _ offered
    · cases answer

end Recorded

namespace Sink

/-- A state tells which bytes were taken: an offer adds those that it took, and nothing else
does. An offer that fails may have taken some before. -/
structure Logs (sink : Sink σ) (log : σ → Bytes) : Prop where
  took : ∀ {state bytes count next}, sink.offer state bytes = (.ok count, next) →
    log next = log state ++ bytes.take count
  failed : ∀ {state bytes failure next}, sink.offer state bytes = (.error failure, next) →
    ∃ piece, piece <+: bytes ∧ log next = log state ++ piece
  flushed : ∀ {state}, log (sink.flush state).2 = log state

structure Honest (sink : Sink σ) (log : σ → Bytes) : Prop extends sink.Logs log where
  failed_eq : ∀ {state bytes failure next}, sink.offer state bytes = (.error failure, next) →
    log next = log state

/-- A sink that meets no fault of its own. -/
structure Calm (sink : Sink σ) : Prop where
  offer : ∀ state bytes cause next, sink.offer state bytes ≠ (.error (.fault cause), next)
  flush : ∀ state cause next, sink.flush state ≠ (.error (.fault cause), next)

/-- The states of one sink stand for those of another, which does the same. -/
structure Mirrors (sink : Sink τ) (other : Sink σ) (f : τ → σ) : Prop where
  offer : ∀ state bytes, (sink.offer state bytes).map id f = other.offer (f state) bytes
  flush : ∀ state, (sink.flush state).map id f = other.flush (f state)

variable {sink : Sink σ} {other : Sink τ} {log : σ → Bytes} {f : σ → τ} {state after : σ}
  {bytes : Bytes}

/-- What every offer keeps writing keeps. -/
theorem writeAll_keeps {holds : σ → Prop}
    (step : ∀ state bytes, holds state → holds (sink.offer state bytes).2) (start : holds state) :
    holds (sink.writeAll state bytes).2 := by
  fun_induction writeAll sink state bytes with
  | case1 => exact start
  | case2 state bytes some failure next offered =>
    have kept := step state bytes start
    rwa [offered] at kept
  | case3 state bytes some next offered =>
    have kept := step state bytes start
    rwa [offered] at kept
  | case4 state bytes some count next offered ih =>
    have kept := step state bytes start
    rw [offered] at kept
    exact ih kept

/-- Writing that meets a fault met it in its last offer. -/
theorem writeAll_fault (holds past : σ → Prop) {cause : Fault}
    (step : ∀ state bytes, holds state → holds (sink.offer state bytes).2)
    (breaks : ∀ state bytes cause next, holds state →
      sink.offer state bytes = (.error (.fault cause), next) → past next)
    (start : holds state) (ran : sink.writeAll state bytes = (.error (.fault cause), after)) :
    past after := by
  fun_induction writeAll sink state bytes with
  | case1 => cases ran
  | case2 state bytes some failure next offered =>
    cases ran
    exact breaks state bytes cause after start offered
  | case3 => cases ran
  | case4 state bytes some count next offered ih =>
    have kept := step state bytes start
    rw [offered] at kept
    exact ih kept ran

theorem Calm.writeAll {cause : Fault} (calm : sink.Calm) :
    sink.writeAll state bytes ≠ (.error (.fault cause), after) :=
  writeAll_fault (fun _ => True) (fun _ => False) (fun _ _ => id)
    (fun state bytes cause next _ => calm.offer state bytes cause next) trivial

/-- Writing takes a first part of the bytes, and all of them where it succeeds. -/
theorem Logs.writeAll (logs : sink.Logs log) :
    ∃ piece, piece <+: bytes ∧ log (sink.writeAll state bytes).2 = log state ++ piece ∧
      ((sink.writeAll state bytes).1 = .ok () → piece = bytes) := by
  fun_induction Sink.writeAll sink state bytes with
  | case1 state bytes none =>
    exact ⟨[], List.nil_prefix, (List.append_nil _).symm, fun _ => (List.isEmpty_iff.mp none).symm⟩
  | case2 state bytes some failure next offered =>
    obtain ⟨piece, begins, logged⟩ := logs.failed offered
    exact ⟨piece, begins, logged, nofun⟩
  | case3 state bytes some next offered =>
    exact ⟨[], List.nil_prefix, by rw [logs.took offered, List.take_zero], nofun⟩
  | case4 state bytes some count next offered ih =>
    obtain ⟨piece, ⟨rest, whole⟩, logged, all⟩ := ih
    refine ⟨bytes.take (count + 1) ++ piece, ⟨rest, ?_⟩, ?_, ?_⟩
    · rw [List.append_assoc, whole, List.take_append_drop]
    · rw [logged, logs.took offered, List.append_assoc]
    · intro succeeded
      rw [all succeeded, List.take_append_drop]

/-- Going on behind the bytes `done`, writing either takes all or stops in between. -/
theorem Logs.writeAll_behind (logs : sink.Logs log) {base done : Bytes}
    {answer : Except (Failure String) Unit}
    (ran : sink.writeAll state bytes = (answer, after)) (here : log state = base ++ done) :
    (∃ piece, piece <+: done ++ bytes ∧ log after = base ++ piece) ∧
      (answer = .ok () → log after = base ++ (done ++ bytes)) := by
  obtain ⟨piece, ⟨rest, whole⟩, logged, all⟩ := @logs.writeAll _ _ _ state bytes
  rw [ran, here, List.append_assoc] at logged
  rw [ran] at all
  refine ⟨⟨done ++ piece, ⟨rest, by rw [List.append_assoc, whole]⟩, logged⟩, fun succeeded => ?_⟩
  rw [logged, all succeeded]

/-- In some states a sink always takes something and can be flushed, and it stays in such a state. -/
structure Willing (sink : Sink σ) (ready : σ → Prop) : Prop where
  offer : ∀ {state bytes}, ready state → bytes ≠ [] →
    ∃ count next, sink.offer state bytes = (.ok (count + 1), next) ∧ ready next
  flush : ∀ {state}, ready state → ∃ next, sink.flush state = (.ok (), next) ∧ ready next

/-- A sink that always takes something takes all in the end. -/
theorem Willing.writeAll {ready : σ → Prop} (willing : sink.Willing ready) (here : ready state) :
    ∃ after, sink.writeAll state bytes = (.ok (), after) ∧ ready after := by
  fun_induction Sink.writeAll sink state bytes with
  | case1 state bytes none => exact ⟨state, rfl, here⟩
  | case2 state bytes some failure next offered =>
    obtain ⟨count, other, taken, _⟩ := willing.offer here (mt List.isEmpty_iff.mpr some)
    cases offered.symm.trans taken
  | case3 state bytes some next offered =>
    obtain ⟨count, other, taken, _⟩ := willing.offer here (mt List.isEmpty_iff.mpr some)
    cases offered.symm.trans taken
  | case4 state bytes some count next offered ih =>
    obtain ⟨count, other, taken, still⟩ := willing.offer here (mt List.isEmpty_iff.mpr some)
    cases offered.symm.trans taken
    exact ih still

/-- Sinks that do the same with whatever is left to write are written to alike. -/
theorem writeAll_alike (fits : σ → Bytes → Prop)
    (same : ∀ state bytes, fits state bytes →
      (sink.offer state bytes).map id f = other.offer (f state) bytes)
    (still : ∀ state bytes count next, fits state bytes →
      sink.offer state bytes = (.ok count, next) → fits next (bytes.drop count))
    (here : fits state bytes) :
    (sink.writeAll state bytes).map id f = other.writeAll (f state) bytes := by
  fun_induction Sink.writeAll sink state bytes with
  | case1 state bytes none =>
    rw [Sink.writeAll, if_pos none]
    rfl
  | case2 state bytes some failure next offered =>
    have same := same state bytes here
    rw [offered] at same
    rw [Sink.writeAll, if_neg some, ← same]
    rfl
  | case3 state bytes some next offered =>
    have same := same state bytes here
    rw [offered] at same
    rw [Sink.writeAll, if_neg some, ← same]
    rfl
  | case4 state bytes some count next offered ih =>
    have same := same state bytes here
    rw [offered] at same
    rw [ih (still state bytes (count + 1) next here offered), Sink.writeAll.eq_1 other (f state),
      if_neg some, ← same]
    rfl

theorem Mirrors.writeAll (mirrors : sink.Mirrors other f) :
    (sink.writeAll state bytes).map id f = other.writeAll (f state) bytes :=
  writeAll_alike (fun _ _ => True) (fun state bytes _ => mirrors.offer state bytes)
    (fun _ _ _ _ _ _ => trivial) trivial

/-- Each of several byte strings is written from a state in which holds what every offer keeps. -/
theorem writeEach_keeps {holds : σ → Prop} {parts : List Bytes}
    (step : ∀ state bytes, holds state → holds (sink.offer state bytes).2) (start : holds state) :
    ∀ called ∈ sink.writeEach state parts,
      ∃ before bytes, holds before ∧ sink.writeAll before bytes = called := by
  induction parts generalizing state with
  | nil => exact nofun
  | cons first rest ih =>
    have kept : holds (sink.writeAll state first).2 := writeAll_keeps step start
    exact List.forall_mem_cons.mpr ⟨⟨state, first, start, rfl⟩, ih kept⟩

theorem Mirrors.writeEach {parts : List Bytes} (mirrors : sink.Mirrors other f) :
    (sink.writeEach state parts).map (Prod.map id f) = other.writeEach (f state) parts := by
  induction parts generalizing state with
  | nil => rfl
  | cons first rest ih =>
    have same := @Mirrors.writeAll _ _ sink other f state first mirrors
    simp only [Sink.writeEach, List.map_cons, ih, ← same, Prod.map]

end Sink

theorem Recorded.honest (sink : Sink σ) : (Recorded.sink sink).Honest taken := by
  have failed_eq : ∀ {state bytes failure next},
      (Recorded.sink sink).offer state bytes = (.error failure, next) →
        next.taken = state.taken := by
    intro state bytes failure next answer
    simp only [Recorded.sink] at answer
    split at answer
    · cases answer
    · cases answer
      rfl
  refine { failed_eq, took := ?took, failed := ?failed, flushed := ?flushed }
  case took =>
    intro state bytes count next answer
    simp only [Recorded.sink] at answer
    split at answer
    · cases answer
      rfl
    · cases answer
  case failed =>
    intro state bytes failure next answer
    exact ⟨[], List.nil_prefix, by rw [failed_eq answer, List.append_nil]⟩
  case flushed =>
    intro state
    rfl

theorem Recorded.calm {sink : Sink σ} (calm : sink.Calm) : (Recorded.sink sink).Calm := by
  constructor
  case offer =>
    intro state bytes cause next answer
    simp only [Recorded.sink] at answer
    split at answer <;> cases answer
    rename_i offered
    exact calm.offer _ _ _ _ offered
  case flush =>
    intro state cause next answer
    have broken : (sink.flush state.inner).1 = .error (.fault cause) := congrArg Prod.fst answer
    exact calm.flush state.inner cause _ (Prod.ext broken rfl)

/-- A sink does not notice that its bytes are recorded. -/
theorem Recorded.mirrors (sink : Sink σ) : (Recorded.sink sink).Mirrors sink inner := by
  constructor
  case offer =>
    intro state bytes
    simp only [Recorded.sink]
    rcases sink.offer state.inner bytes with ⟨_ | _, _⟩ <;> rfl
  case flush =>
    intro state
    rfl

namespace Digested

variable {sink : Sink σ} {log : σ → Bytes} {base : Bytes} {f : σ → τ} {other : Sink τ}

def map (f : σ → τ) (state : Digested σ) : Digested τ :=
  ⟨f state.inner, state.hasher, state.written⟩

theorem mirrors (mirrors : sink.Mirrors other f) :
    (Digested.sink sink).Mirrors (Digested.sink other) (map f) := by
  constructor
  case offer =>
    intro state bytes
    simp only [Digested.sink, map, ← mirrors.offer]
    rcases sink.offer state.inner bytes with ⟨failure | count, next⟩
    · rfl
    · simp only [Prod.map, id_eq]
      split <;> rfl
  case flush =>
    intro state
    simp only [Digested.sink, map, ← mirrors.flush]
    rfl

/-- What an offer to a digesting sink comes to. -/
theorem offer_eq (state : Digested σ) (bytes : Bytes) :
    (∃ failure next, sink.offer state.inner bytes = (.error failure, next) ∧
      (Digested.sink sink).offer state bytes = (.error failure, { state with inner := next })) ∨
    ∃ count next, sink.offer state.inner bytes = (.ok count, next) ∧
      (Digested.sink sink).offer state bytes =
        if state.written + count < sizeLimit then
          (.ok count, ⟨next, state.hasher.update (bytes.take count), state.written + count⟩)
        else
          (.error (.fault .overflow),
            ⟨next, state.hasher.update (bytes.take count), state.written⟩) := by
  rcases offered : sink.offer state.inner bytes with ⟨failure | count, next⟩
  · exact Or.inl ⟨failure, next, rfl, by simp only [Digested.sink, offered]⟩
  · refine Or.inr ⟨count, next, rfl, ?_⟩
    by_cases fits : state.written + count < sizeLimit <;>
      simp only [Digested.sink, offered, addSizes, fits, if_true, if_false]

theorem logs (logs : sink.Logs log) : (Digested.sink sink).Logs fun state => log state.inner := by
  constructor
  case took =>
    intro state bytes count next answer
    obtain ⟨_, _, _, same⟩ | ⟨_, _, offered, same⟩ := @offer_eq _ sink state bytes
    · cases same.symm.trans answer
    · rw [same] at answer
      split at answer <;> cases answer
      exact logs.took offered
  case failed =>
    intro state bytes failure next answer
    obtain ⟨_, _, offered, same⟩ | ⟨count, _, offered, same⟩ := @offer_eq _ sink state bytes
    · cases same.symm.trans answer
      exact logs.failed offered
    · rw [same] at answer
      split at answer <;> cases answer
      exact ⟨bytes.take count, List.take_prefix _ _, logs.took offered⟩
  case flushed =>
    intro state
    exact logs.flushed

/-- As long as 64 bits can count what is taken, a digesting sink does what the sink behind it
does. -/
theorem writeAll_inner {state : Digested σ} {bytes : Bytes}
    (fits : state.written + bytes.length < sizeLimit) :
    ((Digested.sink sink).writeAll state bytes).map id (·.inner) =
      sink.writeAll state.inner bytes := by
  refine Sink.writeAll_alike (fun state bytes => state.written + bytes.length < sizeLimit) ?_ ?_ fits
  · intro state bytes fits
    obtain ⟨_, _, offered, same⟩ | ⟨count, _, offered, same⟩ := @offer_eq _ sink state bytes
    · rw [same, offered]
      rfl
    · have bound := sink.taken_le _ _ _ _ offered
      rw [same, offered, if_pos (by omega)]
      rfl
  · intro state bytes count next fits answer
    have bound := (Digested.sink sink).taken_le _ _ _ _ answer
    obtain ⟨_, _, _, same⟩ | ⟨_, _, _, same⟩ := @offer_eq _ sink state bytes
    · cases same.symm.trans answer
    · rw [same] at answer
      split at answer <;> cases answer
      rw [List.length_drop]
      dsimp only
      omega

/-- What was taken after the bytes `base` is digested, and nothing else is. It is counted where
64 bits can count all of it. -/
structure Covers (log : σ → Bytes) (base : Bytes) (state : Digested σ) (taken : Bytes) : Prop where
  logged : log state.inner = base ++ taken
  hasher_eq : state.hasher = Sha256.State.initial.update taken
  written_le : state.written ≤ taken.length
  written_eq : taken.length < sizeLimit → state.written = taken.length

theorem covers_start (state : σ) : (start state).Covers log (log state) [] where
  logged := (List.append_nil _).symm
  hasher_eq := rfl
  written_le := Nat.le_refl 0
  written_eq _ := rfl

/-- An offer that is cut short counts and digests as much as was taken, one that fails nothing. -/
theorem covers_offer (honest : sink.Honest log) (state : Digested σ) (bytes : Bytes)
    (covers : ∃ taken, state.Covers log base taken) :
    ∃ taken, ((Digested.sink sink).offer state bytes).2.Covers log base taken := by
  obtain ⟨taken, covers⟩ := covers
  obtain ⟨_, _, offered, same⟩ | ⟨count, next, offered, same⟩ := @offer_eq _ sink state bytes
  · refine ⟨taken, ?_⟩
    rw [same]
    exact { covers with logged := (honest.failed_eq offered).trans covers.logged }
  · have bound := sink.taken_le _ _ _ _ offered
    have length : (taken ++ bytes.take count).length = taken.length + count := by
      rw [List.length_append, List.length_take_of_le bound]
    have logged : log next = base ++ (taken ++ bytes.take count) := by
      rw [honest.took offered, covers.logged, List.append_assoc]
    have hasher_eq : state.hasher.update (bytes.take count) =
        Sha256.State.initial.update (taken ++ bytes.take count) := by
      rw [Sha256.State.update_append, covers.hasher_eq]
    have below := covers.written_le
    refine ⟨taken ++ bytes.take count, ?_⟩
    rw [same]
    split
    · refine ⟨logged, hasher_eq, by dsimp only; omega, fun small => ?_⟩
      rw [covers.written_eq (by omega), length]
    · exact ⟨logged, hasher_eq, by dsimp only; omega, fun small => by omega⟩

/-- An offer meets a fault only if more is taken than 64 bits can count. -/
theorem fault_offer (honest : sink.Honest log) (calm : sink.Calm) (state : Digested σ)
    (bytes : Bytes) (cause : Fault) (next : Digested σ)
    (covers : ∃ taken, state.Covers log [] taken)
    (broken : (Digested.sink sink).offer state bytes = (.error (.fault cause), next)) :
    sizeLimit ≤ (log next.inner).length := by
  obtain ⟨taken, covers⟩ := covers
  obtain ⟨_, _, offered, same⟩ | ⟨count, _, offered, same⟩ := @offer_eq _ sink state bytes
  · cases same.symm.trans broken
    exact absurd offered (calm.offer _ _ _ _)
  · rw [same] at broken
    have bound := sink.taken_le _ _ _ _ offered
    have below := covers.written_le
    split at broken <;> cases broken
    rw [honest.took offered, covers.logged, List.nil_append, List.length_append,
      List.length_take_of_le bound]
    omega

theorem Covers.digest_eq {state : Digested σ} {taken : Bytes}
    (covers : state.Covers log base taken) :
    state.digest = Sha256.digest taken := by
  rw [digest, covers.hasher_eq, Sha256.digest]

end Digested

namespace SealedDatabase

variable {sink : Sink σ} {other : Sink τ} {log : σ → Bytes} {f : σ → τ}

/-- Of the stored form a first part is taken, and all of it where writing succeeds. -/
theorem writeFrame_logs (honest : sink.Honest log) (s : SealedDatabase) (state : σ) :
    (∃ piece, piece <+: s.bytes ∧ log (s.writeFrame sink state).2 = log state ++ piece) ∧
      ∀ n, (s.writeFrame sink state).1 = .ok n →
        log (s.writeFrame sink state).2 = log state ++ s.bytes ∧ n = s.size := by
  have form : s.bytes = File.header ++ s.region ++ Sha256.digest s.region := rfl
  have logs := honest.toLogs
  rw [writeFrame]
  rcases header : sink.writeAll state File.header with ⟨error | _, first⟩
  · obtain ⟨⟨piece, begins, logged⟩, _⟩ := logs.writeAll_behind header (List.append_nil _).symm
    refine ⟨⟨piece, begins.trans ?_, logged⟩, nofun⟩
    rw [form, List.append_assoc]
    exact List.prefix_append _ _
  have front := (logs.writeAll_behind header (List.append_nil _).symm).2 rfl
  rw [List.nil_append] at front
  dsimp only
  rcases region : (Digested.sink sink).writeAll (.start first) s.region with ⟨error | _, second⟩
  · obtain ⟨⟨piece, begins, logged⟩, _⟩ := (Digested.logs logs).writeAll_behind region front
    exact ⟨⟨piece, begins.trans (form ▸ List.prefix_append _ _), logged⟩, nofun⟩
  have middle := ((Digested.logs logs).writeAll_behind region front).2 rfl
  -- what is written behind the segments is their digest, as the sink took just them since
  have covers : ∃ taken, (((Digested.sink sink).writeAll (.start first) s.region).2).Covers log
      (log first) taken :=
    Sink.writeAll_keeps (Digested.covers_offer honest) ⟨[], Digested.covers_start first⟩
  rw [region] at covers
  obtain ⟨taken, covers⟩ := covers
  have since : log first ++ taken = log first ++ s.region := by
    rw [← covers.logged, middle, front, List.append_assoc]
  obtain rfl := List.append_cancel_left since
  dsimp only
  rw [covers.digest_eq]
  rcases written : sink.writeAll second.inner (Sha256.digest s.region) with ⟨error | _, third⟩
  · obtain ⟨⟨piece, begins, logged⟩, _⟩ := logs.writeAll_behind written middle
    exact ⟨⟨piece, begins, logged⟩, nofun⟩
  have whole := (logs.writeAll_behind written middle).2 rfl
  have flushed : log (sink.flush third).2 = log third := logs.flushed
  dsimp only
  rcases brought : sink.flush third with ⟨error | _, last⟩
  · rw [brought, whole] at flushed
    exact ⟨⟨s.bytes, List.prefix_rfl, flushed⟩, nofun⟩
  · rw [brought, whole] at flushed
    refine ⟨⟨s.bytes, List.prefix_rfl, flushed⟩, fun n same => ⟨flushed, ?_⟩⟩
    exact (Except.ok.inj same).symm

/-- Writing to a sink that always takes something succeeds. -/
theorem writeFrame_willing {ready : σ → Prop} (willing : sink.Willing ready) (s : SealedDatabase)
    (fits : s.region.length < sizeLimit) {state : σ} (here : ready state) :
    (s.writeFrame sink state).1 = .ok s.size := by
  obtain ⟨first, header, here⟩ := @willing.writeAll _ _ state File.header _ here
  obtain ⟨second, region, here⟩ := @willing.writeAll _ _ first s.region _ here
  have digesting := @Digested.writeAll_inner _ sink (.start first) s.region
    (by simpa [Digested.start])
  rcases through : (Digested.sink sink).writeAll (.start first) s.region with ⟨answer, digested⟩
  rw [through, show (Digested.start first).inner = first from rfl, region] at digesting
  obtain ⟨rfl, rfl⟩ := Prod.mk.inj digesting
  obtain ⟨third, digest, here⟩ := @willing.writeAll _ _ digested.inner digested.digest _ here
  obtain ⟨last, flushed, _⟩ := willing.flush here
  simp only [writeFrame, header, through, digest, flushed]

/-- Writing what 64 bits can count meets no fault. -/
theorem writeFrame_calm (calm : sink.Calm) (s : SealedDatabase)
    (fits : s.region.length < sizeLimit) (state : σ) (cause : Fault) :
    (s.writeFrame sink state).1 ≠ .error (.fault cause) := by
  rw [writeFrame]
  rcases header : sink.writeAll state File.header with ⟨failure | _, first⟩
  · rintro ⟨⟩
    exact calm.writeAll header
  have digesting := @Digested.writeAll_inner _ sink (.start first) s.region
    (by simpa [Digested.start])
  dsimp only
  rcases region : (Digested.sink sink).writeAll (.start first) s.region with ⟨failure | _, second⟩
  · rintro ⟨⟩
    rw [region] at digesting
    exact calm.writeAll digesting.symm
  dsimp only
  rcases written : sink.writeAll second.inner second.digest with ⟨failure | _, third⟩
  · rintro ⟨⟩
    exact calm.writeAll written
  dsimp only
  rcases flushed : sink.flush third with ⟨failure | _, last⟩
  · rintro ⟨⟩
    exact calm.flush _ _ _ flushed
  · nofun

theorem writeFrame_mirrors (mirrors : sink.Mirrors other f) (s : SealedDatabase) (state : σ) :
    (s.writeFrame sink state).map id f = s.writeFrame other (f state) := by
  rw [writeFrame, writeFrame, ← mirrors.writeAll]
  rcases sink.writeAll state File.header with ⟨error | _, first⟩
  · rfl
  simp only [Prod.map, id_eq]
  have digesting :=
    @(Digested.mirrors mirrors).writeAll _ _ _ _ _ (.start first) s.region
  rw [show Digested.start (f first) = (Digested.start first).map f from rfl, ← digesting]
  rcases (Digested.sink sink).writeAll (.start first) s.region with ⟨error | _, second⟩
  · rfl
  simp only [Prod.map, id_eq, Digested.map]
  rw [show (Digested.mk (f second.inner) second.hasher second.written).digest = second.digest from
    rfl, ← mirrors.writeAll]
  rcases sink.writeAll second.inner second.digest with ⟨error | _, third⟩
  · rfl
  simp only [Prod.map, id_eq]
  rw [← mirrors.flush]
  rcases sink.flush third with ⟨error | _, last⟩ <;> rfl

theorem writeTo_mirrors (mirrors : sink.Mirrors other f) (s : SealedDatabase) (state : σ)
    (j : Journal) : (s.writeTo sink state j).map id (Prod.map f id) =
      s.writeTo other (f state) j := by
  rw [writeTo, writeTo, ← writeFrame_mirrors mirrors]
  rcases s.writeFrame sink state with ⟨(error | cause) | written, last⟩ <;> rfl

/-- What is logged does not change what is written. -/
theorem writeTo_eq (s : SealedDatabase) (sink : Sink σ) (state : σ) (j : Journal) :
    ∃ journal, s.writeTo sink state j =
      ((s.writeFrame sink state).1, (s.writeFrame sink state).2, journal) := by
  rw [writeTo]
  rcases s.writeFrame sink state with ⟨(error | cause) | written, last⟩ <;> exact ⟨_, rfl⟩

end SealedDatabase

/-- What is digested is what was taken, and that is what is counted where 64 bits can count it. -/
structure Digested.Tells (d : Digested (Recorded σ)) : Prop where
  digest_eq : d.digest = Sha256.digest d.inner.taken
  written_eq : d.inner.taken.length < sizeLimit → d.written = d.inner.taken.length

theorem Digested.Covers.tells {d : Digested (Recorded σ)} {piece : Bytes}
    (covers : d.Covers Recorded.taken [] piece) : d.Tells := by
  obtain rfl : d.inner.taken = piece := covers.logged
  exact ⟨covers.digest_eq, covers.written_eq⟩

/-- How much of a stored form a sink takes, by the answer to writing it: a first part, and all if
that succeeds, as it does on a sink that always takes something. Only a form that 64 bits cannot
count makes a sink that meets no fault of its own end in one. -/
structure SealedDatabase.Delivers (s : SealedDatabase) (sink : Sink σ) (state : σ)
    (answer : Except (Failure String) Nat) (taken : Bytes) : Prop where
  stretch : taken <+: s.bytes
  whole : ∀ n, answer = .ok n → taken = s.bytes ∧ n = s.bytes.length
  willing : s.region.length < sizeLimit → ∀ ready, sink.Willing ready → ready state →
    answer = .ok s.bytes.length
  calm : s.region.length < sizeLimit → sink.Calm → ∀ cause, answer ≠ .error (.fault cause)

/-- Each call of a digesting sink tells what was taken by then. -/
theorem Digested.writeEach_tells (sink : Sink σ) (state : σ) (parts : List Bytes) :
    ∀ call ∈ (Digested.sink (Recorded.sink sink)).writeEach (.start (.start state)) parts,
      call.2.Tells ∧ (sink.Calm → ∀ cause, call.1 = .error (.fault cause) →
        sizeLimit ≤ call.2.inner.taken.length) := by
  have honest := Recorded.honest sink
  intro call called
  obtain ⟨before, bytes, covers, ran⟩ :=
    Sink.writeEach_keeps (covers_offer honest) ⟨[], covers_start (.start state)⟩ call called
  constructor
  · obtain ⟨_, after⟩ : ∃ piece, call.2.Covers Recorded.taken [] piece :=
      ran ▸ Sink.writeAll_keeps (covers_offer honest) covers
    exact after.tells
  · intro calm cause broken
    exact Sink.writeAll_fault _ (fun d => sizeLimit ≤ d.inner.taken.length)
      (covers_offer honest) (fault_offer honest (Recorded.calm calm)) covers
      (ran.trans (Prod.ext broken rfl))

/-- A sealed database is delivered alike with and without a record of what was taken. -/
theorem SealedDatabase.writeTo_delivers (sink : Sink σ) (state : σ) (s : SealedDatabase)
    (j : Journal) :
    ∃ answer after journal,
      s.writeTo (Recorded.sink sink) (.start state) j = (answer, after, journal) ∧
      s.writeTo sink state j = (answer, after.inner, journal) ∧
      s.Delivers sink state answer after.taken := by
  have mirrors := Recorded.mirrors sink
  obtain ⟨⟨piece, begins, logged⟩, whole⟩ :=
    writeFrame_logs (Recorded.honest sink) s (.start state)
  obtain ⟨journal, ran⟩ := s.writeTo_eq (Recorded.sink sink) (.start state) j
  have same := writeTo_mirrors mirrors s (.start state) j
  have answer : (s.writeFrame (Recorded.sink sink) (.start state)).1 = (s.writeFrame sink state).1 :=
    congrArg Prod.fst (writeFrame_mirrors mirrors s (.start state))
  have length : s.bytes.length = s.size := File.length_form s.region
  rw [ran] at same
  rw [Recorded.taken_start, List.nil_append] at logged whole
  refine ⟨_, _, _, ran, same.symm, ?_⟩
  constructor
  case stretch => exact logged ▸ begins
  case whole => exact length ▸ whole
  case willing =>
    intro fits ready willing here
    rw [answer, length, writeFrame_willing willing s fits here]
  case calm =>
    intro fits calm cause
    rw [answer]
    exact writeFrame_calm calm s fits state cause

/-- A digesting sink counts and digests just what the sink behind it took, before and after every
call, whatever was cut short and whatever failed; a call meets a fault only when more was taken
than 64 bits can count. So a stored form that was written to its end is all that the sink took,
and of one that was not it took a first part. The record of what was taken changes no answer and
no state. -/
theorem Recorded.digests_taken (sink : Sink σ) (state : σ) (parts : List Bytes)
    (s : SealedDatabase) (j : Journal) :
    let calls := (Digested.sink (Recorded.sink sink)).writeEach (.start (start state)) parts
    (Digested.start (start state)).Tells ∧
    (∀ call ∈ calls, call.2.Tells ∧ (sink.Calm → ∀ cause, call.1 = .error (.fault cause) →
      sizeLimit ≤ call.2.inner.taken.length)) ∧
    calls.map (Prod.map id (Digested.map inner)) =
      (Digested.sink sink).writeEach (.start state) parts ∧
    ∃ answer after journal,
      s.writeTo (Recorded.sink sink) (start state) j = (answer, after, journal) ∧
      s.writeTo sink state j = (answer, after.inner, journal) ∧
      s.Delivers sink state answer after.taken := by
  intro calls
  have fresh : (Digested.start (start state)).Covers taken [] [] :=
    Digested.covers_start (start state)
  have unseen : calls.map (Prod.map id (Digested.map inner)) =
      (Digested.sink sink).writeEach (.start state) parts :=
    (Digested.mirrors (Recorded.mirrors sink)).writeEach
  exact ⟨fresh.tells, Digested.writeEach_tells sink state parts, unseen,
    SealedDatabase.writeTo_delivers sink state s j⟩

theorem BoundedSink.willing :
    sink.Willing fun state => state.room? = none ∧ state.chunk? = some 3 := by
  constructor
  case offer =>
    rintro state bytes ⟨free, chunk⟩ some
    have offered := List.length_pos_iff.mpr some
    obtain ⟨count, taken⟩ : ∃ count, state.accepted bytes.length = count + 1 := by
      simp only [accepted, free, chunk, Option.elim]
      exact ⟨min bytes.length 3 - 1, by omega⟩
    simp only [sink, taken]
    exact ⟨count, _, rfl, free, chunk⟩
  case flush =>
    intro state here
    exact ⟨state, rfl, here⟩

/-- A sink with room for three bytes that takes two at a time fails in the middle of the second
part; one that takes three at a time gets a stored form of 44 bytes. -/
theorem Recorded.digests_taken_cutShort :
    (∃ call ∈ (Digested.sink (Recorded.sink BoundedSink.sink)).writeEach
        (.start (start ⟨some 2, some 3, #[]⟩)) [[1, 2], [3, 4], [5]],
      call.2.inner.taken = [1, 2, 3] ∧ call.2.written = 3 ∧
        call.2.digest = Sha256.digest [1, 2, 3]) ∧
    ∃ after journal, (SealedDatabase.mk 0 0 [7, 8, 9, 10]).writeTo (Recorded.sink BoundedSink.sink)
        (start ⟨some 3, none, #[]⟩) .empty = (.ok 44, after, journal) ∧
      after.taken = (SealedDatabase.mk 0 0 [7, 8, 9, 10]).bytes := by
  constructor
  · obtain ⟨_, told, _⟩ := digests_taken BoundedSink.sink ⟨some 2, some 3, #[]⟩
      [[1, 2], [3, 4], [5]] ⟨0, 0, []⟩ .empty
    have records : ((Digested.sink (Recorded.sink BoundedSink.sink)).writeEach
        (.start (start ⟨some 2, some 3, #[]⟩)) [[1, 2], [3, 4], [5]]).map (·.2.inner.taken) =
          [[1, 2], [1, 2, 3], [1, 2, 3]] := by
      decide +kernel
    have listed : [1, 2, 3] ∈ ((Digested.sink (Recorded.sink BoundedSink.sink)).writeEach
        (.start (start ⟨some 2, some 3, #[]⟩)) [[1, 2], [3, 4], [5]]).map (·.2.inner.taken) := by
      rw [records]
      exact List.mem_cons_of_mem _ List.mem_cons_self
    obtain ⟨call, called, taken⟩ := List.mem_map.mp listed
    have tells := (told call called).1
    have count := tells.written_eq (by rw [taken]; decide)
    have digest := tells.digest_eq
    rw [taken] at count digest
    exact ⟨call, called, taken, count, digest⟩
  · obtain ⟨_, _, _, answer, after, journal, ran, _, delivers⟩ := digests_taken
      BoundedSink.sink ⟨some 3, none, #[]⟩ [] ⟨0, 0, [7, 8, 9, 10]⟩ .empty
    have succeeded := delivers.willing (by decide) _ BoundedSink.willing ⟨rfl, rfl⟩
    have length : (SealedDatabase.mk 0 0 [7, 8, 9, 10]).bytes.length = 44 :=
      File.length_form [7, 8, 9, 10]
    rw [length] at succeeded
    exact ⟨after, journal, succeeded ▸ ran, (delivers.whole 44 succeeded).1⟩

end DocStore
