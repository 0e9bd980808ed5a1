import DocStore.Build.Builder
import DocStore.Proofs.Database.Execution
import DocStore.Proofs.Format.File
import DocStore.Proofs.Format.Segments

/-! Opening arbitrary bytes: whatever is accepted can be queried. -/
namespace DocStore

variable {documents : Nat}

def Faultless {ε α : Type} (result : Except (Failure ε) α) : Prop :=
  ∀ cause, result ≠ .error (.fault cause)

theorem faultless_ok {ε α : Type} (a : α) : Faultless (.ok a : Except (Failure ε) α) := nofun

theorem faultless_refused {ε α : Type} (e : ε) :
    Faultless (.error (.refused e) : Except (Failure ε) α) := nofun

theorem Faultless.map {ε α β : Type} {result : Except (Failure ε) α} (calm : Faultless result)
    (f : α → β) : Faultless (result.map f) := by
  cases result with
  | ok a => exact faultless_ok (f a)
  | error failure =>
    cases failure with
    | refused e => exact faultless_refused e
    | fault cause => exact absurd rfl (calm cause)

namespace Snapshot

/-- Nothing that queries read from a snapshot meets a fault. -/
structure Usable (s : Snapshot) : Prop where
  payloads : s.payloads.Stored
  filters : ∀ index ∈ s.filters, index.Usable s.documents
  sorts : ∀ index ∈ s.sorts, index.Safe

variable {s : Snapshot}

theorem addFilter_ends {index : FilterIndex} (usable : s.Usable)
    (added : index.Usable s.documents) :
    Ends (s.addFilter index) fun t => t.Usable ∧ t.documents = s.documents := by
  unfold addFilter
  split
  · exact Ends.refused _
  · refine Ends.ok ⟨⟨usable.payloads, fun other listed => ?_, usable.sorts⟩, rfl⟩
    rcases List.mem_append.mp listed with before | last
    · exact usable.filters other before
    · exact List.mem_singleton.mp last ▸ added

theorem addSort_ends {index : SortIndex} (usable : s.Usable) (added : index.Safe) :
    Ends (s.addSort index) fun t => t.Usable ∧ t.documents = s.documents := by
  unfold addSort
  split
  · exact Ends.refused _
  · refine Ends.ok ⟨⟨usable.payloads, usable.filters, fun other listed => ?_⟩, rfl⟩
    rcases List.mem_append.mp listed with before | last
    · exact usable.sorts other before
    · exact List.mem_singleton.mp last ▸ added

theorem addSegment_ends {segment : Segment} (usable : s.Usable)
    (added : segment.Usable s.documents) :
    Ends (s.addSegment segment) fun t => t.Usable ∧ t.documents = s.documents := by
  cases segment with
  | payloads listed => exact Ends.ok ⟨usable, rfl⟩
  | filter index => exact addFilter_ends usable added
  | sort index => exact addSort_ends usable added
  | full filter sort =>
    refine (addFilter_ends usable added.1).bind ?_
    rintro t ⟨usable, same⟩
    rcases addSort_ends usable added.2 with refused | ⟨u, ok, usable, again⟩
    · exact Or.inl refused
    · exact Or.inr ⟨u, ok, usable, again.trans same⟩

theorem payloadsOf_ends (segments : List RawSegment) :
    Ends (payloadsOf segments) Payloads.Stored := by
  unfold payloadsOf
  split
  · exact Ends.refused _
  · refine (RawSegment.decode_ends (by decide) _).bind fun segment usable => ?_
    split
    · exact Ends.ok usable
    · exact Ends.refused _
  · exact Ends.refused _

theorem decode_ends {file : View} {verify : Bool}
    (placed : file.start + File.headerLength < sizeLimit) :
    Ends (decode file verify) Usable := by
  refine (File.openRegion_ends placed).bind fun region start => ?_
  refine (RawSegment.split_ends start).bind fun segments _ => ?_
  unfold ofSegments
  refine (payloadsOf_ends segments).bind fun payloads stored => ?_
  have empty : Usable ⟨payloads, [], []⟩ :=
    ⟨stored, fun _ none => absurd none List.not_mem_nil, fun _ none => absurd none List.not_mem_nil⟩
  exact Ends.foldlM empty fun s raw _ usable =>
    (RawSegment.decode_ends (usable.payloads.room) raw).bind fun segment readable => by
      rcases addSegment_ends usable readable with refused | ⟨t, ok, usable, _⟩
      · exact Or.inl refused
      · exact Or.inr ⟨t, ok, usable⟩

/-- The tests of all fields together. -/
theorem Usable.answers (usable : s.Usable) : ∃ passes, s.source.Answers False passes := by
  have each : ∀ field, ∃ passes : ValueTest → Nat → Prop,
      (∀ test i, passes test i → i < s.documents) ∧
        ∀ test, Adds s.documents False (s.source.unite field · test) (passes test) := fun field => by
    simp only [source]
    cases known : s.filter? field with
    | none => exact ⟨fun _ _ => False, fun _ _ => False.elim, fun _ => adds_nothing fun _ => id⟩
    | some index =>
      obtain ⟨passes, below, unite⟩ := usable.filters index (List.mem_of_find?_eq_some known)
      exact ⟨passes, below, unite⟩
  obtain ⟨passes, all⟩ := Classical.axiomOfChoice each
  exact ⟨passes, usable.payloads.room, fun field => (all field).1, fun field => (all field).2⟩

theorem Usable.sound (usable : s.Usable) : s.source.Sound where
  small := usable.payloads.room
  sorts _ index known := usable.sorts index (List.mem_of_find?_eq_some known)
  stored := usable.payloads.get

end Snapshot

namespace Database

variable {db : Database} {e e' : Engine} {bytes : Bytes} {settings : Settings}
  {registry : Registry}

theorem load_ends (settings : Settings) {file : View}
    (placed : file.start + File.headerLength < sizeLimit) :
    Ends (load settings (.ok file)) fun loaded => loaded.1 = file ∧ loaded.2.Usable := by
  unfold load
  cases settings.validate with
  | error error => exact Ends.refused _
  | ok checked =>
    have decoded : Ends (Snapshot.decode file settings.verifyDigest) _ := Snapshot.decode_ends placed
    rcases decoded with ⟨error, refused⟩ | ⟨snapshot, accepted, usable⟩
    · simp only [refused]
      exact Ends.refused _
    · simp only [accepted]
      exact Ends.ok ⟨rfl, usable⟩

/-- A database that is opened is attached to the engine that opened it. -/
theorem openWith_ok {origin : String} {contents : Except String View} {file : View}
    {snapshot : Snapshot} (loaded : load settings contents = .ok (file, snapshot))
    (registry : Registry) (e : Engine) :
    ∃ db e', openWith origin settings contents registry e = (.ok db, e') ∧
      db.snapshot = snapshot ∧ db.Attached e' ∧ e.arena.Keeps e'.arena := by
  unfold openWith
  rw [loaded]
  refine ⟨_, _, rfl, rfl, ?_, Arena.keeps_addPool _⟩
  exact ⟨_, Array.getElem?_push_size, rfl, fun _ none => absurd none List.not_mem_nil⟩

theorem openWith_refused {origin : String} {contents : Except String View} {error : StoreError}
    (loaded : load settings contents = .error (.refused error)) (registry : Registry)
    (e : Engine) : (openWith origin settings contents registry e).1 = .error (.refused error) := by
  unfold openWith
  rw [loaded]

/-- Opening arbitrary bytes is refused or gives a database that can be queried. -/
theorem openMemory_ends (bytes : Bytes) (settings : Settings) (registry : Registry) (e : Engine) :
    Ends (openMemory bytes settings registry e).1 fun db =>
      db.snapshot.Usable ∧ db.Attached (openMemory bytes settings registry e).2 := by
  rcases load_ends settings (File.placed_ofBytes bytes) with
    ⟨error, refused⟩ | ⟨⟨file, snapshot⟩, loaded, _, usable⟩
  · exact Or.inl ⟨error, openWith_refused refused registry e⟩
  · obtain ⟨db, e', opened, rfl, attached, _⟩ := @openWith_ok settings memory _ _ _ loaded registry e
    rw [openMemory, opened]
    exact Ends.ok ⟨usable, attached⟩

variable {ρ : Type} {processor : Processor ρ}

/-- A processor was called with existing documents and their payloads only. -/
def Serves (db : Database) (processor : Processor ρ) (e : Engine) (own own' : ρ) : Prop :=
  ∃ calls willing last, Calls processor (e, own) calls willing (last, own') ∧
    ∀ call ∈ calls, call.1 < db.documents ∧ db.payload? call.1 = .ok (some call.2)

theorem run_faultless (usable : db.snapshot.Usable) (attached : db.Attached e)
    (tame : processor.Tame e.arena) (context : String) (q : Query) (pager : Pager) (own : ρ) :
    Faultless (db.run context q (some processor) pager e own).1 ∧
      db.Serves processor e own (db.run context q (some processor) pager e own).2.2.2 := by
  obtain ⟨passes, answers⟩ := usable.answers
  obtain ⟨_, calls, willing, last, made, _, served, ended⟩ :=
    run_serves answers usable.sound tame attached rfl
  refine ⟨?_, calls, willing, last, made, served⟩
  rcases ended with ⟨error, refused⟩ | ⟨outcome, _, done, _⟩
  · exact refused ▸ faultless_refused error
  · exact done ▸ faultless_ok outcome

theorem count_faultless (usable : db.snapshot.Usable) (attached : db.Attached e)
    (context : String) (q : Query) : Faultless (db.count context q e).1 := by
  obtain ⟨passes, answers⟩ := usable.answers
  obtain ⟨_, ended⟩ := @run_counts Unit _ _ _ q _ _ (.start 0 none) _ () () context _ answers attached rfl
  refine Faultless.map ?_ _
  rcases ended with ⟨error, refused⟩ | ⟨outcome, _, done, _⟩
  · exact refused ▸ faultless_refused error
  · exact done ▸ faultless_ok outcome

/-- No byte string makes opening it meet a fault, nor any query on what was opened, now or after
whatever else the process has done to its pools; and processors see existing documents only. -/
theorem openMemory_faultless (bytes : Bytes) (settings : Settings) (registry : Registry)
    (e : Engine) :
    Faultless (openMemory bytes settings registry e).1 ∧
      ∀ db, (openMemory bytes settings registry e).1 = .ok db →
        ∀ later : Engine, (openMemory bytes settings registry e).2.arena.Keeps later.arena →
          ∀ (context : String) (q : Query),
            Faultless (db.count context q later).1 ∧
              ∀ {ρ : Type} (processor : Processor ρ) (own : ρ),
                processor.Tame later.arena →
                Faultless (db.execute context q processor later own).1 ∧
                db.Serves processor later own (db.execute context q processor later own).2.2 ∧
                Faultless (db.executeAndCount context q processor later own).1 ∧
                db.Serves processor later own
                  (db.executeAndCount context q processor later own).2.2 := by
  have ends := openMemory_ends bytes settings registry e
  refine ⟨ends.not_fault, fun db opened later keeps context q => ?_⟩
  have usable : db.snapshot.Usable ∧ db.Attached later := by
    rcases ends with ⟨error, refused⟩ | ⟨other, accepted, usable, attached⟩
    · rw [refused] at opened
      contradiction
    · rw [accepted] at opened
      obtain rfl := Except.ok.inj opened
      exact ⟨usable, keeps _ _ attached⟩
  refine ⟨count_faultless usable.1 usable.2 context q, fun processor own tame => ?_⟩
  obtain ⟨calm, serves⟩ :=
    run_faultless usable.1 usable.2 tame context q (.start q.skip q.limit) own
  exact ⟨calm.map _, serves, calm.map _, serves⟩

/-- Bytes that no builder writes: the values of a field are out of order. -/
def unsortedFile : Bytes :=
  File.form (Segment.form .payload (Payloads.form [[7], [8]]) ++
    Segment.form .variedFilter (Bytes.counted (Value.textBytes "a") ++
      ValueSet.form ⟨[[2], [1]]⟩ .varied ++ PostingsBuilder.listForm ⟨2, #[[0], [1]]⟩))

theorem openMemory_faultless_unsorted :
    ∃ db later, openMemory unsortedFile .standard (.own 0) .start = (.ok db, later) ∧
      db.documents = 2 ∧
      db.Serves Processor.listing later []
        (db.execute "c" ⟨[.test "a" (.less [2] true)], [], 0, none⟩ .listing later []).2.2 := by
  have accepted : (openMemory unsortedFile .standard (.own 0) .start).1.toOption.map
      Database.documents = some 2 := by decide +kernel
  cases opened : openMemory unsortedFile .standard (.own 0) .start with
  | mk result later =>
    cases result with
    | error failure =>
      rw [opened] at accepted
      contradiction
    | ok db =>
      rw [opened] at accepted
      have all := (openMemory_faultless unsortedFile .standard (.own 0) .start).2 db (by rw [opened])
        later (opened ▸ Arena.Keeps.refl _) "c" ⟨[.test "a" (.less [2] true)], [], 0, none⟩
      exact ⟨db, later, rfl, Option.some.inj accepted,
        (all.2 Processor.listing [] (Processor.tame_listing _)).2.1⟩

end Database

end DocStore
