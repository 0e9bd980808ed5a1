import DocStore.Build.Sealed
import DocStore.Proofs.Database.Reopening

/-! Queries on a database that was sealed and reopened, against the meaning of the query for the
documents that were added. -/
namespace DocStore

variable {ρ : Type} {added : List Document} {b : Builder}

namespace Query

variable {q : Query}

theorem validate_eq_ok (valid : q.validate = .ok q) : q.problem? = none := by
  unfold validate at valid
  split at valid
  · contradiction
  · assumption

/-- Without a field to order by, documents come in the order of their numbers. -/
theorem ordered_plain (plain : q.orders = []) : q.ordered added = q.matching added := by
  rw [ordered, plain]
  apply List.mergeSort_of_pairwise
  apply (List.pairwise_lt_range.filter _).imp
  intro i j order
  simpa [Order.le] using Nat.le_of_lt order

end Query

namespace Database

variable {db : Database} {e e' : Engine} {q : Query} {processor : Processor ρ} {n : Nat}
  {own own' : ρ} {context : String}

/-- Conditions select the documents that the query matches. -/
theorem matches_iff (valid : q.problem? = none) (i : Nat) :
    (i < added.length ∧ Matches added.length
      (fun field test i => ∃ d, added[i]? = some d ∧ d.passes field test = true) q i) ↔
      i ∈ q.matching added := by
  rw [Query.matching, List.mem_filter, List.mem_range]
  refine and_congr_right fun inside => ?_
  have there := List.getElem?_eq_getElem inside
  rw [there, Option.any_some]
  refine Condition.allHold_iff inside (fun field test => ?_) q.conditions
    (Query.conditions_sound valid)
  rw [there]
  simp

theorem selected_eq {selection : Selection} (valid : q.problem? = none)
    (selects : selection.Selects added.length (Matches added.length
      (fun field test i => ∃ d, added[i]? = some d ∧ d.passes field test = true) q)) :
    selection.docs.toList = q.matching added := by
  rw [DocSet.toList_eq selects.readable.legible, selects.size]
  apply eq_of_ascending (List.pairwise_lt_range.filter _) (List.pairwise_lt_range.filter _)
  intro i
  rw [List.mem_filter, List.mem_range, selects.members, matches_iff valid]
  refine and_iff_right_of_imp fun listed => ?_
  exact List.mem_range.mp (List.mem_filter.mp listed).1

theorem count_counts (represents : db.snapshot.Represents added) (attached : db.Attached e)
    (valid : q.problem? = none) (counted : db.count context q e = (.ok n, e')) :
    n = (q.matching added).length ∧ e.arena.Keeps e'.arena := by
  unfold count at counted
  cases ran : db.run context q (none : Option (Processor Unit)) (.start 0 none) e () with
  | mk result rest =>
    obtain ⟨pager, after, _⟩ := rest
    rw [ran] at counted
    obtain ⟨keeps, ended⟩ := run_counts represents.answers attached ran
    rcases ended with ⟨error, rfl⟩ | ⟨outcome, selection, rfl, selects, matched⟩
    · cases counted
    · rw [show db.documents = added.length from represents.documents] at selects
      cases counted
      exact ⟨matched.trans (congrArg List.length (selected_eq valid selects)), keeps⟩

/-- A count is the number of the documents that the query matches. -/
theorem count_eq (represents : db.snapshot.Represents added) (attached : db.Attached e)
    (valid : q.problem? = none) (counted : db.count context q e = (.ok n, e')) :
    n = (q.matching added).length := (count_counts represents attached valid counted).1

/-- A run that ends well calls its processor with the page of the ordered documents, and with
their payloads. -/
theorem run_pages {pager pager' : Pager} {outcome : Outcome}
    (represents : db.snapshot.Represents added) (attached : db.Attached e)
    (valid : q.problem? = none) (tame : processor.Tame e.arena)
    (ran : db.run context q (some processor) pager e own = (.ok outcome, pager', e', own')) :
    e.arena.Keeps e'.arena ∧ outcome.matched = (q.matching added).length ∧
      ∃ calls willing last, Calls processor (e, own) calls willing (last, own') ∧
        last.arena.Keeps e'.arena ∧
        (∀ call ∈ calls, ∃ d, added[call.1]? = some d ∧ d.payload = some call.2.bytes) ∧
        pager.Pages (q.ordered added) (calls.map (·.1)) willing outcome.completed pager' := by
  obtain ⟨keeps, calls, willing, last, made, after, served, ended⟩ :=
    run_serves represents.answers represents.sound tame attached ran
  have documents : db.documents = added.length := represents.documents
  rcases ended with ⟨error, refused⟩ | ⟨_, selection, same, selects, matched, pages⟩
  · contradiction
  · cases same
    have listing : Emission.listing db.snapshot.source q.orders selection.docs = q.ordered added := by
      rw [Emission.listing_eq represents.orders q.orders selects.readable selects.size]
      rw [documents] at selects
      rw [selected_eq valid selects, Query.ordered]
    rw [listing] at pages
    rw [documents] at selects
    refine ⟨keeps, matched.trans (congrArg List.length (selected_eq valid selects)), calls,
      willing, last, made, after, ?_, pages⟩
    intro call called
    obtain ⟨inside, payload⟩ := served call called
    rw [documents] at inside
    have there := List.getElem?_eq_getElem inside
    obtain ⟨view, read, bytes⟩ := represents.payloads call.1 _ there
    have equal : view = call.2 := by
      have both := read.symm.trans payload
      exact Option.some.inj (Except.ok.inj both)
    exact ⟨_, there, equal ▸ bytes⟩

/-- A processor is called with the page of the ordered documents, and with their payloads. -/
theorem execute_serves (represents : db.snapshot.Represents added) (attached : db.Attached e)
    (valid : q.problem? = none) (tame : processor.Tame e.arena)
    (executed : db.execute context q processor e own = (.ok n, e', own')) :
    ∃ calls willing last, Calls processor (e, own) calls willing (last, own') ∧
      (∀ call ∈ calls, ∃ d, added[call.1]? = some d ∧ d.payload = some call.2.bytes) ∧
      calls.map (·.1) <+: (Pager.start q.skip q.limit).page (q.ordered added) ∧
      (willing = true →
        calls.map (·.1) = (Pager.start q.skip q.limit).page (q.ordered added)) ∧
      n = calls.length := by
  unfold execute at executed
  cases ran : db.run context q (some processor) (.start q.skip q.limit) e own with
  | mk result rest =>
    obtain ⟨pager, after, owned⟩ := rest
    rw [ran] at executed
    cases result with
    | error failure => cases executed
    | ok outcome =>
      cases executed
      obtain ⟨_, _, calls, willing, last, made, _, payloads, pages⟩ :=
        run_pages represents attached valid tame ran
      refine ⟨calls, willing, last, made, payloads, pages.stretch, pages.all, ?_⟩
      rw [pages.emitted, List.length_map]
      exact Nat.zero_add _

/-- A stored file is opened, wherever its bytes are kept. -/
theorem openWith_form (stores : b.Stores added) (short : b.Short) {settings : Settings}
    (checked : settings.validate = .ok ()) (origin : String) {file : View}
    (stored : file.bytes = File.form (RawSegment.formOf b.segments))
    (placed : file.start + File.headerLength < sizeLimit)
    (registry : Registry) (e : Engine) :
    ∃ db opened, openWith origin settings (.ok file) registry e = (.ok db, opened) ∧
      db.snapshot.payloads.Holds b.payloads ∧ db.snapshot.Indexes b.columns added.length ∧
      db.Attached opened ∧ e.arena.Keeps opened.arena := by
  obtain ⟨snapshot, decoded, holds, indexes⟩ :=
    Snapshot.decode_form stores short stored placed settings.verifyDigest
  have loaded : load settings (.ok file) = .ok (file, snapshot) := by
    rw [load, checked]
    simp only [decoded]
    rfl
  obtain ⟨db, opened, accepted, same, attached, keeps⟩ :=
    @openWith_ok settings origin _ _ _ loaded registry e
  exact ⟨db, opened, accepted, same ▸ holds, same ▸ indexes, attached, keeps⟩

theorem finish_eq_ok (stores : b.Stores added) (short : b.Short) (journal : Journal) :
    (b.finish journal).1 = .ok ⟨b.size, b.columns.length, RawSegment.formOf b.segments⟩ := by
  rw [Builder.finish, Builder.freeze_eq_ok stores short]

/-- Sealing what was stored and opening the file both succeed. -/
theorem openMemory_finish (stores : b.Stores added) (short : b.Short) {settings : Settings}
    (checked : settings.validate = .ok ()) (journal : Journal) (registry : Registry) (e : Engine) :
    ∃ s db opened, (b.finish journal).1 = .ok s ∧
      openMemory s.bytes settings registry e = (.ok db, opened) ∧
      db.snapshot.Represents added ∧ db.Attached opened := by
  obtain ⟨db, opened, accepted, holds, indexes, attached, _⟩ := openWith_form stores short checked
    memory (View.bytes_ofBytes (File.form (RawSegment.formOf b.segments))) (File.placed_ofBytes _)
    registry e
  exact ⟨_, db, opened, finish_eq_ok stores short journal, accepted,
    indexes.represents stores holds, attached⟩

/-- Whatever was added can be sealed and opened again, and then the filter of a query leaves just
the documents that match it, however often pools were used in between. -/
theorem reopened_filters (built : ∀ d ∈ added, d.Built)
    (accepted : Builder.ofDocuments added = .ok b) (short : b.Short) {settings : Settings}
    (checked : settings.validate = .ok ()) (journal : Journal) (registry : Registry) (e : Engine) :
    ∃ s db opened, (b.finish journal).1 = .ok s ∧
      openMemory s.bytes settings registry e = (.ok db, opened) ∧
      ∀ q : Query, q.validate = .ok q →
        ∀ later : Engine, opened.arena.Keeps later.arena → ∀ context : String,
          (∀ n after, db.count context q later = (.ok n, after) →
            n = (q.matching added).length) ∧
          (q.orders = [] → q.skip = 0 → q.limit = none →
            ∀ {ρ : Type} (processor : Processor ρ) (own own' : ρ) (n : Nat) (after : Engine),
              processor.Tame later.arena →
              (∀ document payload state, (processor document payload state).1 = true) →
              db.execute context q processor later own = (.ok n, after, own') →
                ∃ calls last, Calls processor (later, own) calls true (last, own') ∧
                  calls.map (·.1) = q.matching added ∧ n = calls.length ∧
                  ∀ call ∈ calls, ∃ d, added[call.1]? = some d ∧
                    d.payload = some call.2.bytes) := by
  have stores := Builder.stores_of_documents (fun d inside =>
    Document.coherent_of_built (built d inside)) accepted
  obtain ⟨s, db, opened, finished, reopened, represents, attached⟩ :=
    openMemory_finish stores short checked journal registry e
  refine ⟨s, db, opened, finished, reopened, fun q valid later keeps context => ?_⟩
  have valid := Query.validate_eq_ok valid
  have attached : db.Attached later := keeps _ _ attached
  refine ⟨fun n after counted => count_eq represents attached valid counted, ?_⟩
  intro plain start whole ρ processor own own' n after tame never executed
  obtain ⟨calls, willing, last, made, payloads, _, all, count⟩ :=
    execute_serves represents attached valid tame executed
  have going := made.willing never
  subst going
  have page : (Pager.start q.skip q.limit).page (q.ordered added) = q.ordered added := by
    rw [start, whole]
    rfl
  rw [page, Query.ordered_plain plain] at all
  exact ⟨calls, last, made, all rfl, count, payloads⟩

def threeDocuments : List Document :=
  [⟨[⟨"t", [1], ⟨.full, .varied⟩⟩], some [7]⟩, ⟨[], some []⟩,
    ⟨[⟨"t", [0], ⟨.full, .varied⟩⟩], some [8]⟩]

def threeBuilder : Builder := (Builder.ofDocuments threeDocuments).toOption.getD .empty

theorem built_three : ∀ d ∈ threeDocuments, d.Built := by
  intro d inside
  simp only [threeDocuments, List.mem_cons, List.not_mem_nil, or_false] at inside
  rcases inside with rfl | rfl | rfl
  · exact ⟨[.field "t" (.bytes [1]) ⟨.full, .varied⟩, .payload [7]], rfl⟩
  · exact ⟨[.payload []], rfl⟩
  · exact ⟨[.field "t" (.bytes [0]) ⟨.full, .varied⟩, .payload [8]], rfl⟩

/-- Settings for files whose digest need not be checked again. -/
def trusting : Settings := { Settings.standard with verifyDigest := false }

def notBelow : Query := ⟨[.not (.test "t" (.less [1] false))], [], 0, none⟩

theorem ok_of_toOption {ε α β : Type} {run : Except ε α × β} {a : α}
    (known : run.1.toOption = some a) : ∃ after, run = (.ok a, after) := by
  obtain ⟨result, after⟩ := run
  cases result with
  | error e => contradiction
  | ok answer =>
    cases known
    exact ⟨after, rfl⟩

theorem ok_of_any {ε α β : Type} {run : Except ε α × β} (p : α → β → Prop)
    [∀ a b, Decidable (p a b)] (known : run.1.toOption.any (p · run.2) = true) :
    ∃ a after, run = (.ok a, after) ∧ p a after := by
  obtain ⟨result, after⟩ := run
  cases result with
  | error e => contradiction
  | ok a => exact ⟨a, after, rfl, of_decide_eq_true known⟩

theorem reopened_filters_three : ∃ s db opened,
    (threeBuilder.finish .empty).1 = .ok s ∧
      openMemory s.bytes trusting (.own 0) .start = (.ok db, opened) ∧
      (∃ after, db.count "c" notBelow opened = (.ok 2, after)) ∧
      2 = (notBelow.matching threeDocuments).length ∧
      ∃ calls last own', Calls Processor.listing (opened, []) calls true (last, own') ∧
        calls.map (·.1) = notBelow.matching threeDocuments := by
  obtain ⟨s, db, opened, finished, reopened, answers⟩ := @reopened_filters threeDocuments
    threeBuilder built_three rfl (by decide +kernel) trusting rfl .empty (.own 0) .start
  have counted : (threeBuilder.finish .empty).1.toOption.bind (fun s =>
      match openMemory s.bytes trusting (.own 0) .start with
      | (.ok db, opened) => (db.count "c" notBelow opened).1.toOption
      | (.error _, _) => none) = some 2 := by decide +kernel
  have executed : (threeBuilder.finish .empty).1.toOption.bind (fun s =>
      match openMemory s.bytes trusting (.own 0) .start with
      | (.ok db, opened) => (db.execute "c" notBelow .listing opened []).1.toOption
      | (.error _, _) => none) = some 2 := by decide +kernel
  rw [finished] at counted executed
  simp only [Except.toOption, Option.bind_some, reopened] at counted executed
  obtain ⟨after, counted⟩ := ok_of_toOption counted
  obtain ⟨⟨last, own'⟩, executed⟩ := ok_of_toOption executed
  obtain ⟨counts, serves⟩ := answers notBelow rfl opened (Arena.Keeps.refl _) "c"
  obtain ⟨calls, last, made, listed, _⟩ := serves rfl rfl rfl Processor.listing [] own' 2 last
    (Processor.tame_listing _) (fun _ _ _ => rfl) executed
  exact ⟨s, db, opened, finished, reopened, ⟨after, counted⟩, counts 2 after counted, calls, last,
    own', made, listed⟩

/-- Whatever was added can be sealed and opened again, and then a query calls its processor with
the page of the matching documents in the order that the query asks for, up to the first call
that wants no more. -/
theorem reopened_orders (built : ∀ d ∈ added, d.Built)
    (accepted : Builder.ofDocuments added = .ok b) (short : b.Short) {settings : Settings}
    (checked : settings.validate = .ok ()) (journal : Journal) (registry : Registry) (e : Engine) :
    ∃ s db opened, (b.finish journal).1 = .ok s ∧
      openMemory s.bytes settings registry e = (.ok db, opened) ∧
      ∀ q : Query, q.validate = .ok q →
        ∀ later : Engine, opened.arena.Keeps later.arena → ∀ context : String,
          ∀ {ρ : Type} (processor : Processor ρ) (own own' : ρ) (n : Nat) (after : Engine),
            processor.Tame later.arena →
            db.execute context q processor later own = (.ok n, after, own') →
              ∃ calls willing last, Calls processor (later, own) calls willing (last, own') ∧
                calls.map (·.1) <+: (Pager.start q.skip q.limit).page (q.ordered added) ∧
                (willing = true →
                  calls.map (·.1) = (Pager.start q.skip q.limit).page (q.ordered added)) ∧
                n = calls.length ∧
                ∀ call ∈ calls, ∃ d, added[call.1]? = some d ∧
                  d.payload = some call.2.bytes := by
  have stores := Builder.stores_of_documents (fun d inside =>
    Document.coherent_of_built (built d inside)) accepted
  obtain ⟨s, db, opened, finished, reopened, represents, attached⟩ :=
    openMemory_finish stores short checked journal registry e
  refine ⟨s, db, opened, finished, reopened, ?_⟩
  intro q valid later keeps context ρ processor own own' n after tame executed
  obtain ⟨calls, willing, last, made, payloads, stretch, whole, count⟩ :=
    execute_serves represents (keeps _ _ attached) (Query.validate_eq_ok valid) tame executed
  exact ⟨calls, willing, last, made, stretch, whole, count, payloads⟩

def firstTwo : Query := ⟨[], [⟨"t", .ascending⟩], 0, some 2⟩

theorem reopened_orders_three : ∃ s db opened,
    (threeBuilder.finish .empty).1 = .ok s ∧
      openMemory s.bytes trusting (.own 0) .start = (.ok db, opened) ∧
      ∃ calls last own', Calls Processor.listing (opened, []) calls true (last, own') ∧
        calls.map (·.1) = [2, 0] := by
  obtain ⟨s, db, opened, finished, reopened, answers⟩ := @reopened_orders threeDocuments
    threeBuilder built_three rfl (by decide +kernel) trusting rfl .empty (.own 0) .start
  have executed : (threeBuilder.finish .empty).1.toOption.bind (fun s =>
      match openMemory s.bytes trusting (.own 0) .start with
      | (.ok db, opened) => (db.execute "c" firstTwo .listing opened []).1.toOption
      | (.error _, _) => none) = some 2 := by decide +kernel
  rw [finished] at executed
  simp only [Except.toOption, Option.bind_some, reopened] at executed
  obtain ⟨⟨last, own'⟩, executed⟩ := ok_of_toOption executed
  obtain ⟨calls, willing, last, made, _, whole, _⟩ := answers firstTwo rfl opened
    (Arena.Keeps.refl _) "c" Processor.listing [] own' 2 last (Processor.tame_listing _) executed
  have going := made.willing fun _ _ _ => rfl
  subst going
  have ordered : firstTwo.ordered threeDocuments = [2, 0, 1] :=
    (Order.eq_mergeSort (by decide +kernel) (by decide +kernel)).symm
  rw [ordered] at whole
  exact ⟨s, db, opened, finished, reopened, calls, last, own', made, whole rfl⟩

end Database

end DocStore
