import DocStore.Database.Composite
import DocStore.Proofs.Database.Queries

/-! Several databases as one stream. Runs follow one another on one pager, so that what a run has
left of the page is what the next one takes from; counts go on where the stream has ended. -/
namespace DocStore

variable {ρ : Type} {q : Query} {e e' : Engine} {context : String}

/-- The documents of several databases that a query matches, those of a database in the order of
the query, each with the number of its database. -/
def Query.listing (q : Query) (ordinal : Nat) (shards : List (List Document)) : List (Nat × Nat) :=
  (shards.zipIdx ordinal).flatMap fun shard => (q.ordered shard.1).map (shard.2, ·)

def Query.total (q : Query) (shards : List (List Document)) : Nat :=
  (shards.map fun added => (q.matching added).length).sum

section Listing

variable {added : List Document} {others : List (List Document)}

theorem Query.listing_cons (q : Query) (ordinal : Nat) : q.listing ordinal (added :: others) =
    (q.ordered added).map (ordinal, ·) ++ q.listing (ordinal + 1) others := by
  rw [listing, List.zipIdx_cons, List.flatMap_cons]
  rfl

theorem Query.total_cons (q : Query) :
    q.total (added :: others) = (q.matching added).length + q.total others := by
  rw [total, List.map_cons, List.sum_cons]
  rfl

theorem Query.total_append (q : Query) (done left : List (List Document)) :
    q.total (done ++ left) = q.total done + q.total left := by
  rw [total, List.map_append, List.sum_append]
  rfl

end Listing

/-- A database that documents were sealed as and that was opened from the sealed bytes, wherever
they were kept. On a later engine its pool is still there. -/
structure Database.Reopened (db : Database) (added : List Document) (later : Engine) : Prop where
  built : ∀ d ∈ added, d.Built
  opened : ∃ (b : Builder) (s : SealedDatabase) (journal : Journal) (origin : String)
    (settings : Settings) (file : View) (registry : Registry) (before after : Engine),
    Builder.ofDocuments added = .ok b ∧ b.Short ∧ (b.finish journal).1 = .ok s ∧
      file.bytes = s.bytes ∧ file.start + File.headerLength < sizeLimit ∧
      openWith origin settings (.ok file) registry before = (.ok db, after) ∧
      after.arena.Keeps later.arena

namespace Database

variable {db : Database} {added : List Document}

theorem validate_of_openWith {origin : String} {settings : Settings}
    {contents : Except String View} {registry : Registry} {before after : Engine}
    (opened : openWith origin settings contents registry before = (.ok db, after)) :
    settings.validate = .ok () := by
  cases checked : settings.validate with
  | ok => rfl
  | error error =>
    have refused : load settings contents = .error (.refused (StoreError.settings error)) := by
      unfold load
      rw [checked]
      rfl
    have ended := @openWith_refused _ origin _ _ refused registry before
    rw [opened] at ended
    contradiction

theorem Reopened.represents (reopened : db.Reopened added e) :
    db.snapshot.Represents added ∧ db.Attached e := by
  obtain ⟨built, b, s, journal, origin, settings, file, registry, before, after, accepted, short,
    finished, stored, placed, opened, keeps⟩ := reopened
  have stores := Builder.stores_of_built built accepted
  rw [finish_eq_ok stores short] at finished
  cases finished
  obtain ⟨_, _, again, holds, indexes, attached, _⟩ := openWith_form stores short
    (validate_of_openWith opened) origin stored placed registry before
  rw [opened] at again
  cases again
  exact ⟨indexes.represents stores holds, keeps _ _ attached⟩

/-- Whatever was added can be reopened. -/
theorem reopened_openMemory {b : Builder} (built : ∀ d ∈ added, d.Built)
    (accepted : Builder.ofDocuments added = .ok b) (short : b.Short) {settings : Settings}
    (checked : settings.validate = .ok ()) (journal : Journal) (registry : Registry) (e : Engine) :
    ∃ s db opened, (b.finish journal).1 = .ok s ∧
      openMemory s.bytes settings registry e = (.ok db, opened) ∧ e.arena.Keeps opened.arena ∧
      ∀ later : Engine, opened.arena.Keeps later.arena → db.Reopened added later := by
  have stores := Builder.stores_of_built built accepted
  have stored := View.bytes_ofBytes (File.form (RawSegment.formOf b.segments))
  have finished := finish_eq_ok stores short journal
  obtain ⟨db, opened, ran, _, _, _, keeps⟩ :=
    openWith_form stores short checked memory stored (File.placed_ofBytes _) registry e
  refine ⟨_, db, opened, finished, ran, keeps, ?_⟩
  intro later kept
  exact ⟨built, b, _, journal, memory, settings, _, registry, e, opened, accepted, short, finished,
    stored, File.placed_ofBytes _, ran, kept⟩

end Database

namespace Composite

variable {own own' : ρ} {processor : Processor ρ} {ordinal n : Nat} {willing : Bool}

/-- Calls of a processor with documents of several databases, and whether the last one asked for
more. Between calls pools stay as they are. -/
inductive Calls (processor : Processor ρ) :
    Engine × ρ → List (Nat × Nat × View) → Bool → Engine × ρ → Prop where
  | none {e e' : Engine} {own : ρ} (keeps : e.arena.Keeps e'.arena) :
    Calls processor (e, own) [] true (e', own)
  | more {e before : Engine} {own : ρ} {ordinal document : Nat} {payload : View}
    {next last : Engine × ρ} {rest : List (Nat × Nat × View)} {willing : Bool}
    (keeps : e.arena.Keeps before.arena)
    (called : processor ordinal document payload (before, own) = (true, next))
    (later : Calls processor next rest willing last) :
    Calls processor (e, own) ((ordinal, document, payload) :: rest) willing last
  | stop {e before after last : Engine} {own own' : ρ} {ordinal document : Nat} {payload : View}
    (keeps : e.arena.Keeps before.arena)
    (called : processor ordinal document payload (before, own) = (false, after, own'))
    (ended : after.arena.Keeps last.arena) :
    Calls processor (e, own) [(ordinal, document, payload)] false (last, own')

namespace Calls

variable {start middle last : Engine × ρ} {calls others : List (Nat × Nat × View)}

theorem after_keeps (keeps : e.arena.Keeps e'.arena)
    (made : Calls processor (e', own) calls willing last) :
    Calls processor (e, own) calls willing last := by
  cases made with
  | none later => exact none (keeps.trans later)
  | more later called rest => exact more (keeps.trans later) called rest
  | stop later called ended => exact stop (keeps.trans later) called ended

theorem append (first : Calls processor start calls true middle)
    (second : Calls processor middle others willing last) :
    Calls processor start (calls ++ others) willing last := by
  generalize going : true = flag at first
  induction first with
  | none keeps => exact second.after_keeps keeps
  | more keeps called _ ih => exact more keeps called (ih second going)
  | stop => contradiction

/-- The calls of a run on one database, tagged with its number. -/
theorem of_run {listed : List (Nat × View)} {state ended : Engine × ρ}
    (made : DocStore.Calls (processor ordinal) state listed willing ended) {e' : Engine}
    (keeps : ended.1.arena.Keeps e'.arena) :
    Calls processor state (listed.map (ordinal, ·)) willing (e', ended.2) := by
  induction made with
  | none before => exact none (before.trans keeps)
  | more before called _ ih => exact more before called (ih keeps)
  | stop before called after => exact stop before called (after.trans keeps)

theorem going (never : ∀ ordinal document payload state,
      (processor ordinal document payload state).1 = true)
    (made : Calls processor start calls willing last) : willing = true := by
  induction made with
  | none => rfl
  | more _ _ _ ih => exact ih
  | @stop _ before _ _ own _ ordinal document payload _ called _ =>
    have going := never ordinal document payload (before, own)
    rw [called] at going
    contradiction

end Calls

variable {databases : List Database} {shards : List (List Document)} {pager : Pager}
  {matched total : Nat} {outcome : Outcome}

def Represent (databases : List Database) (shards : List (List Document)) (e : Engine) : Prop :=
  List.Forall₂ (fun db added => db.snapshot.Represents added ∧ db.Attached e) databases shards

theorem Represent.later (represent : Represent databases shards e)
    (keeps : e.arena.Keeps e'.arena) : Represent databases shards e' := by
  induction represent with
  | nil => exact .nil
  | cons held _ ih => exact .cons ⟨held.1, keeps _ _ held.2⟩ ih

/-- Counting adds up the matches of all databases. -/
theorem countFrom_eq (represent : Represent databases shards e) (valid : q.problem? = none)
    (counted : countFrom context q total databases e = (.ok n, e')) :
    n = total + q.total shards := by
  induction databases generalizing shards total e with
  | nil =>
    cases represent
    cases counted
    rfl
  | cons db rest ih =>
    obtain - | @⟨_, added, _, others, ⟨represents, attached⟩, remaining⟩ := represent
    rw [countFrom] at counted
    cases found : db.count context q e with
    | mk result after =>
      rw [found] at counted
      cases result with
      | error failure => cases counted
      | ok some =>
        obtain ⟨rfl, keeps⟩ := Database.count_counts represents attached valid found
        dsimp only at counted
        split at counted
        · cases counted
        · rename_i sum added
          obtain ⟨_, rfl⟩ := addSizes_eq_ok.mp added
          rw [ih (Represent.later remaining keeps) counted, Query.total_cons, Nat.add_assoc]

def place (call : Nat × Nat × View) : Nat × Nat := (call.1, call.2.1)

/-- Calls that go through the page of the listings of several databases, one after the other, up
to the first call that wants no more, each with the payload of its document. -/
structure Delivers (processor : Processor ρ) (q : Query) (shards : List (List Document))
    (ordinal : Nat) (pager : Pager) (start : Engine × ρ) (calls : List (Nat × Nat × View))
    (willing : Bool) (last : Engine × ρ) : Prop where
  made : Calls processor start calls willing last
  payloads : ∀ call ∈ calls, ∃ added d, (added, call.1) ∈ shards.zipIdx ordinal ∧
    added[call.2.1]? = some d ∧ d.payload = some call.2.2.bytes
  stretch : calls.map place <+: pager.page (q.listing ordinal shards)
  whole : willing = true → calls.map place = pager.page (q.listing ordinal shards)

structure Streamed (processor : Processor ρ) (q : Query) (shards : List (List Document))
    (ordinal matched : Nat) (pager : Pager) (e : Engine) (own : ρ) (outcome : Outcome)
    (e' : Engine) (own' : ρ) : Prop where
  calls : ∃ calls willing,
    Delivers processor q shards ordinal pager (e, own) calls willing (e', own') ∧
      outcome.pager.emitted = pager.emitted + calls.length
  visited : ∃ done left, shards = done ++ left ∧ outcome.matched = matched + q.total done ∧
    Represent outcome.unvisited left e'

theorem map_place (ordinal : Nat) (listed : List (Nat × View)) :
    (listed.map (ordinal, ·)).map place = (listed.map (·.1)).map (ordinal, ·) := by
  rw [List.map_map, List.map_map]
  rfl

section Step

variable {added : List Document} {others : List (List Document)} {listed : List (Nat × View)}
  {last between : Engine} {middle : ρ} {completed : Bool} {next : Pager} {rest : List Database}
  (made : DocStore.Calls (processor ordinal) (e, own) listed willing (last, middle))
  (keeps : last.arena.Keeps between.arena)
  (payloads : ∀ call ∈ listed, ∃ d, added[call.1]? = some d ∧ d.payload = some call.2.bytes)
  (pages : pager.Pages (q.ordered added) (listed.map (·.1)) willing completed next)

include payloads

theorem payloads_of_run : ∀ call ∈ listed.map (ordinal, ·), ∃ shard d,
    (shard, call.1) ∈ (added :: others).zipIdx ordinal ∧ shard[call.2.1]? = some d ∧
      d.payload = some call.2.2.bytes := by
  intro call called
  obtain ⟨own, inside, rfl⟩ := List.mem_map.mp called
  obtain ⟨d, known, bytes⟩ := payloads own inside
  refine ⟨added, d, ?_, known, bytes⟩
  rw [List.zipIdx_cons]
  exact List.mem_cons_self

include made keeps pages

/-- A run after which the stream ends. -/
theorem streamed_last (ended : completed = false ∨ next.isDone = true)
    (left : Represent rest others between) :
    Streamed processor q (added :: others) ordinal matched pager e own
      ⟨matched + (q.matching added).length, rest, next⟩ between middle := by
  constructor
  · refine ⟨listed.map (ordinal, ·), willing, ⟨.of_run made keeps, payloads_of_run payloads, ?_, ?_⟩,
      ?_⟩
    · have front := pages.stretch.map (ordinal, ·)
      rw [← Pager.page_map, ← map_place] at front
      rw [Query.listing_cons]
      exact front.trans (Pager.page_prefix _ _ _)
    · intro going
      have full : next.isDone = true := by
        rcases ended with stopped | done
        · exact (pages.ended stopped).resolve_left (by simp [going])
        · exact done
      rw [map_place, Query.listing_cons, pages.whole going (ordinal, ·), Pager.page_full full,
        List.append_nil]
    · rw [pages.emitted, List.length_map, List.length_map]
  · refine ⟨[added], others, rfl, ?_, left⟩
    rw [Query.total_cons]
    rfl

/-- A run after which the stream goes on with the other databases. -/
theorem Streamed.follow (going : completed = true)
    (later : Streamed processor q others (ordinal + 1) (matched + (q.matching added).length) next
      between middle outcome e' own') :
    Streamed processor q (added :: others) ordinal matched pager e own outcome e' own' := by
  obtain ⟨⟨calls, wanted, delivers, count⟩, done, left, split, sum, represent⟩ := later
  obtain rfl := pages.going going
  constructor
  · refine ⟨listed.map (ordinal, ·) ++ calls, wanted,
      ⟨(Calls.of_run made keeps).append delivers.made, ?_, ?_, ?_⟩, ?_⟩
    · intro call called
      rcases List.mem_append.mp called with first | second
      · exact payloads_of_run payloads call first
      · obtain ⟨shard, d, inside, known⟩ := delivers.payloads call second
        refine ⟨shard, d, ?_, known⟩
        rw [List.zipIdx_cons]
        exact List.mem_cons_of_mem _ inside
    · rw [List.map_append, map_place, Query.listing_cons, pages.whole rfl (ordinal, ·)]
      exact (List.prefix_append_right_inj _).mpr delivers.stretch
    · intro going
      rw [List.map_append, map_place, Query.listing_cons, pages.whole rfl (ordinal, ·),
        delivers.whole going]
    · rw [count, pages.emitted, List.length_append, List.length_map, List.length_map]
      omega
  · refine ⟨added :: done, left, ?_, ?_, represent⟩
    · rw [split, List.cons_append]
    · rw [sum, Query.total_cons, Nat.add_assoc]

end Step

theorem stream_streamed (represent : Represent databases shards e) (valid : q.problem? = none)
    (tame : ∀ ordinal, (processor ordinal).Tame e.arena)
    (streamed : stream context q processor ordinal matched pager databases e own =
      (.ok outcome, e', own')) :
    Streamed processor q shards ordinal matched pager e own outcome e' own' := by
  induction databases generalizing shards ordinal matched pager e own with
  | nil =>
    cases represent
    cases streamed
    constructor
    · exact ⟨[], true, ⟨.none (Arena.Keeps.refl _), by simp, List.nil_prefix,
        by simp [Query.listing]⟩, rfl⟩
    · exact ⟨[], [], rfl, rfl, .nil⟩
  | cons db rest ih =>
    obtain - | @⟨_, added, _, others, ⟨represents, attached⟩, remaining⟩ := represent
    rw [stream] at streamed
    cases ran : db.run context q (some (processor ordinal)) pager e own with
    | mk result ended =>
      obtain ⟨next, between, middle⟩ := ended
      rw [ran] at streamed
      cases result with
      | error failure => cases streamed
      | ok found =>
        obtain ⟨keeps, count, calls, willing, last, made, closed, payloads, pages⟩ :=
          Database.run_pages represents attached valid (tame ordinal) ran
        dsimp only at streamed
        rw [count] at streamed
        split at streamed
        · cases streamed
        rename_i sum added
        obtain ⟨_, rfl⟩ := addSizes_eq_ok.mp added
        split at streamed
        · rename_i ended
          cases streamed
          apply streamed_last made closed payloads pages _ (Represent.later remaining keeps)
          simpa using ended
        · rename_i more
          apply Streamed.follow made closed payloads pages
          · cases known : found.completed with
            | true => rfl
            | false => simp [known] at more
          · apply ih (Represent.later remaining keeps) _ streamed
            intro ordinal
            exact (tame ordinal).later keeps

variable {c : Composite}

theorem execute_eq_ok (executed : c.execute context q processor e own = (.ok n, e', own')) :
    ∃ outcome, n = outcome.pager.emitted ∧
      stream context q processor 0 0 (.start q.skip q.limit) c.databases e own =
        (.ok outcome, e', own') := by
  rw [execute] at executed
  cases ran : stream context q processor 0 0 (.start q.skip q.limit) c.databases e own with
  | mk result ended =>
    rw [ran] at executed
    cases result with
    | error failure => cases executed
    | ok outcome =>
      cases executed
      exact ⟨outcome, rfl, rfl⟩

theorem executeAndCount_eq_ok
    (executed : c.executeAndCount context q processor e own = (.ok n, e', own')) :
    ∃ outcome between,
      stream context q processor 0 0 (.start q.skip q.limit) c.databases e own =
        (.ok outcome, between, own') ∧
      countFrom context q outcome.matched outcome.unvisited between = (.ok n, e') := by
  rw [executeAndCount] at executed
  cases ran : stream context q processor 0 0 (.start q.skip q.limit) c.databases e own with
  | mk result ended =>
    obtain ⟨between, owned⟩ := ended
    rw [ran] at executed
    cases result with
    | error failure => cases executed
    | ok outcome =>
      cases counted : countFrom context q outcome.matched outcome.unvisited between with
      | mk found after =>
        dsimp only at executed
        rw [counted] at executed
        cases executed
        exact ⟨outcome, between, rfl, counted⟩

theorem represent_of_reopened
    (reopened : List.Forall₂ (fun db added => db.Reopened added e) databases shards) :
    Represent databases shards e := by
  induction reopened with
  | nil => exact .nil
  | cons first _ ih => exact .cons first.represents ih

/-- Several databases answer a query as one: its calls go through the page of all their listings,
and the matches of all of them are counted, wherever the page or the processor ends. -/
structure Streams (c : Composite) (q : Query) (shards : List (List Document)) (context : String)
    (e : Engine) : Prop where
  execute : ∀ {ρ : Type} {processor : Processor ρ} {own own' : ρ} {n : Nat} {after : Engine},
    (∀ ordinal, (processor ordinal).Tame e.arena) →
      c.execute context q processor e own = (.ok n, after, own') →
        ∃ calls willing, n = calls.length ∧
          Delivers processor q shards 0 (.start q.skip q.limit) (e, own) calls willing (after, own')
  executeAndCount : ∀ {ρ : Type} {processor : Processor ρ} {own own' : ρ} {n : Nat}
    {after : Engine}, (∀ ordinal, (processor ordinal).Tame e.arena) →
      c.executeAndCount context q processor e own = (.ok n, after, own') → n = q.total shards
  count : ∀ {n : Nat} {after : Engine}, c.count context q e = (.ok n, after) → n = q.total shards

/-- Databases that were sealed and opened anywhere, at any time before, are streamed in order. -/
theorem reopened_streams
    (reopened : List.Forall₂ (fun db added => db.Reopened added e) c.databases shards)
    (valid : q.validate = .ok q) (context : String) : c.Streams q shards context e := by
  have represent := represent_of_reopened reopened
  have valid := Query.validate_eq_ok valid
  constructor
  case execute =>
    intro ρ processor own own' n after tame executed
    obtain ⟨outcome, rfl, ran⟩ := execute_eq_ok executed
    obtain ⟨⟨calls, willing, delivers, count⟩, _⟩ := stream_streamed represent valid tame ran
    exact ⟨calls, willing, count.trans (Nat.zero_add _), delivers⟩
  case executeAndCount =>
    intro ρ processor own own' n after tame executed
    obtain ⟨outcome, between, ran, counted⟩ := executeAndCount_eq_ok executed
    obtain ⟨_, done, left, rfl, sum, unvisited⟩ := stream_streamed represent valid tame ran
    rw [countFrom_eq unvisited valid counted, sum, Query.total_append, Nat.zero_add]
  case count =>
    intro n after counted
    rw [countFrom_eq represent valid counted, Nat.zero_add]

def reopen (b : Builder) (e : Engine) : Option (Database × Engine) :=
  (b.finish .empty).1.toOption.bind fun s =>
    match Database.openMemory s.bytes Database.trusting (.own 0) e with
    | (.ok db, opened) => some (db, opened)
    | (.error _, _) => none

theorem reopen_exists {added : List Document} {b : Builder} (built : ∀ d ∈ added, d.Built)
    (accepted : Builder.ofDocuments added = .ok b) (short : b.Short) (e : Engine) :
    ∃ db opened, reopen b e = some (db, opened) ∧ e.arena.Keeps opened.arena ∧
      ∀ later : Engine, opened.arena.Keeps later.arena → db.Reopened added later := by
  obtain ⟨s, db, opened, finished, ran, keeps, reopened⟩ :=
    @Database.reopened_openMemory added b built accepted short Database.trusting rfl .empty (.own 0) e
  refine ⟨db, opened, ?_, keeps, reopened⟩
  rw [reopen, finished, Except.toOption, Option.bind_some, ran]

def threeTwice : Option (Composite × Engine) :=
  (reopen Database.threeBuilder .start).bind fun (first, e) =>
    (reopen .empty e).bind fun (second, e) =>
      (reopen Database.threeBuilder e).map fun (third, e) => (⟨[first, second, third]⟩, e)

def behindFirst : Query := ⟨[], [⟨"t", .ascending⟩], 1, some 3⟩

theorem reopened_streams_three : ∃ c e calls after own',
    threeTwice = some (c, e) ∧ Calls (fun _ => .listing) (e, []) calls true (after, own') ∧
      calls.map place = [(0, 0), (0, 1), (2, 2)] ∧
      6 = behindFirst.total [Database.threeDocuments, [], Database.threeDocuments] := by
  obtain ⟨first, e₁, opened₁, _, reopened₁⟩ :=
    @reopen_exists Database.threeDocuments Database.threeBuilder Database.built_three rfl
      (by decide +kernel) .start
  obtain ⟨second, e₂, opened₂, keeps₂, reopened₂⟩ :=
    @reopen_exists [] .empty nofun rfl (by decide +kernel) e₁
  obtain ⟨third, e₃, opened₃, keeps₃, reopened₃⟩ :=
    @reopen_exists Database.threeDocuments Database.threeBuilder Database.built_three rfl
      (by decide +kernel) e₂
  have run : threeTwice = some (⟨[first, second, third]⟩, e₃) := by
    simp only [threeTwice, opened₁, opened₂, opened₃, Option.bind_some, Option.map_some]
  have executed : threeTwice.bind (fun (c, e) =>
      (c.execute "c" behindFirst (fun _ => .listing) e []).1.toOption) = some 3 := by
    decide +kernel
  have counted : threeTwice.bind (fun (c, e) =>
      (c.executeAndCount "c" behindFirst (fun _ => .listing) e []).1.toOption) = some 6 := by
    decide +kernel
  rw [run, Option.bind_some] at executed counted
  obtain ⟨⟨after, own'⟩, executed⟩ := Database.ok_of_toOption executed
  obtain ⟨_, counted⟩ := Database.ok_of_toOption counted
  have reopened : List.Forall₂ (fun db added => db.Reopened added e₃) [first, second, third]
      [Database.threeDocuments, [], Database.threeDocuments] :=
    .cons (reopened₁ e₃ (keeps₂.trans keeps₃)) (.cons (reopened₂ e₃ keeps₃)
      (.cons (reopened₃ e₃ (Arena.Keeps.refl _)) .nil))
  have streams := @reopened_streams behindFirst e₃ _ ⟨[first, second, third]⟩ reopened rfl "c"
  have tame : ∀ _ : Nat, DocStore.Processor.listing.Tame e₃.arena := fun _ =>
    Processor.tame_listing _
  obtain ⟨calls, willing, _, delivers⟩ := streams.execute tame executed
  obtain rfl := delivers.made.going fun _ _ _ _ => rfl
  have ordered : behindFirst.ordered Database.threeDocuments = [2, 0, 1] :=
    (Order.eq_mergeSort (by decide +kernel) (by decide +kernel)).symm
  refine ⟨_, e₃, calls, after, own', run, delivers.made, ?_, streams.executeAndCount tame counted⟩
  rw [delivers.whole rfl, Query.listing_cons, Query.listing_cons, Query.listing_cons, ordered]
  decide +kernel

end Composite

end DocStore
