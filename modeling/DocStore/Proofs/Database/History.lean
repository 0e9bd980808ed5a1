import DocStore.Proofs.Database.Queries
import DocStore.Proofs.Database.Restoring
import DocStore.Proofs.Database.Twins

/-! Whatever a process has done before does not show in the answers of a query: between queries
only kept sets remain of it, and a set that is lent is empty. -/
namespace DocStore

variable {ι κ ρ : Type}

namespace Arena

/-- No query runs between two moments: there may be more pools, and kept sets may have moved. -/
structure Ages (a b : Arena) : Prop where
  count : a.pools.size ≤ b.pools.size
  counters : ∀ id < a.pools.size, b.pool id = { a.pool id with free := (b.pool id).free }
  busy : ∀ name, (b.context name).busy = (a.context name).busy
  stocked : a.Stocked → b.Stocked

variable {a b c : Arena}

theorem Restocks.ages (moves : a.Restocks b) : a.Ages b where
  count := Nat.le_of_eq moves.count.symm
  counters id _ := moves.counters id
  busy := moves.busy
  stocked := moves.stocked

theorem Ages.trans (first : a.Ages b) (second : b.Ages c) : a.Ages c where
  count := Nat.le_trans first.count second.count
  counters id inside := by
    rw [second.counters id (Nat.lt_of_lt_of_le inside first.count), first.counters id inside]
  busy name := (second.busy name).trans (first.busy name)
  stocked stocked := second.stocked (first.stocked stocked)

theorem Ages.agrees {id : Nat} {p : Pool} (ages : a.Ages b) (inside : id < a.pools.size)
    (agrees : (a.pool id).Agrees p) : (b.pool id).Agrees p := by
  rw [ages.counters id inside]
  exact ⟨agrees.size, agrees.maxConcurrent, agrees.inFlight⟩

theorem ages_addPool (a : Arena) (size maxConcurrent : Nat) :
    a.Ages (a.addPool (.empty size maxConcurrent)) where
  count := by
    rw [addPool, Array.size_push]
    exact Nat.le_succ _
  counters id inside := by rw [pool_addPool, if_neg (Nat.ne_of_lt inside)]
  busy _ := rfl
  stocked stocked := stocked.addPool (Pool.stocked_empty size maxConcurrent)

end Arena

namespace Database

variable {db : Database} {e e' : Engine} {settings : Settings} {contents : Except String View}
  {registry : Registry} {origin : String}

theorem arena_modifyJournal (e : Engine) (f : Journal → Journal) :
    (e.modifyJournal f).arena = e.arena := rfl

theorem arena_modifyMetrics (e : Engine) (registry : Registry) (f : Metrics → Metrics) :
    (e.modifyMetrics registry f).arena = e.arena := rfl

theorem arena_reportOpened (db : Database) (origin : String) (e : Engine) :
    (db.reportOpened origin e).arena = e.arena := by
  simp only [reportOpened, Engine.logEvent, arena_modifyJournal, arena_modifyMetrics]

theorem arena_reportFailed (error : StoreError) (origin : String) (registry : Registry)
    (e : Engine) : (reportFailed error origin registry e).arena = e.arena := by
  simp only [reportFailed, Engine.logEvent, arena_modifyJournal]
  split <;> simp only [arena_modifyJournal, arena_modifyMetrics]

/-- Opening adds a pool, and only when it succeeds. -/
theorem openWith_ages (origin : String) (settings : Settings) (contents : Except String View)
    (registry : Registry) (e : Engine) :
    e.arena.Ages (openWith origin settings contents registry e).2.arena := by
  cases loaded : load settings contents with
  | ok pair =>
    obtain ⟨file, snapshot⟩ := pair
    simp only [openWith, loaded]
    rw [arena_modifyJournal, arena_reportOpened]
    exact e.arena.ages_addPool snapshot.documents settings.concurrentSets
  | error failure =>
    cases failure with
    | refused error =>
      simp only [openWith, loaded]
      rw [arena_modifyJournal, arena_reportFailed]
      exact (Arena.Restocks.refl _).ages
    | fault cause =>
      simp only [openWith, loaded]
      exact (Arena.Restocks.refl _).ages

/-- What opening a file makes: its snapshot, and a new pool with nothing out. -/
theorem openWith_eq_ok (opened : openWith origin settings contents registry e = (.ok db, e')) :
    ∃ file, load settings contents = .ok (file, db.snapshot) ∧
      db.setsPerQuery = settings.setsPerQuery ∧ db.pool = e.arena.pools.size ∧
      e'.arena = e.arena.addPool (.empty db.documents settings.concurrentSets) := by
  cases loaded : load settings contents with
  | ok pair =>
    obtain ⟨file, snapshot⟩ := pair
    simp only [openWith, loaded, Prod.mk.injEq, Except.ok.injEq] at opened
    obtain ⟨rfl, rfl⟩ := opened
    exact ⟨file, rfl, rfl, rfl, rfl⟩
  | error failure =>
    cases failure <;> simp [openWith, loaded] at opened

/-- A database that was opened can be queried. -/
theorem openWith_usable {file : View}
    (placed : file.start + File.headerLength < sizeLimit)
    (opened : openWith origin settings (.ok file) registry e = (.ok db, e')) :
    db.snapshot.Usable ∧ db.Attached e' := by
  obtain ⟨file, loaded, _⟩ := openWith_eq_ok opened
  obtain ⟨_, _, again, _, attached, _⟩ := @openWith_ok _ origin _ _ _ loaded registry e
  rw [opened] at again
  cases again
  rcases load_ends settings placed with ⟨_, refused⟩ | ⟨_, accepted, _, usable⟩
  · rw [loaded] at refused
    contradiction
  · rw [loaded] at accepted
    cases accepted
    exact ⟨usable, attached⟩

end Database

/-- What a process may have become in the course of time. Files are opened, queries are executed
and counted, with processors that may make queries themselves, and whatever is no pool and no
context may change. -/
inductive Engine.Later (e : Engine) : Engine → Prop
  | now : Later e e
  | aside {f g : Engine} (before : Later e f) (still : g.arena = f.arena) : Later e g
  | opening {f : Engine} (before : Later e f) (origin : String) (settings : Settings)
      (contents : Except String View) (registry : Registry) :
    Later e (Database.openWith origin settings contents registry f).2
  | query {f : Engine} (before : Later e f) {ι κ ρ : Type} (h : Handles ι κ) (db : Database)
      (context : String) (q : Query) (script : Nat → View → ρ → Script ι κ ρ) (pager : Pager)
      (own : ρ) :
    Later e (db.run context q (some (Script.processor h.databases h.contexts script)) pager f
      own).2.2.1
  | count {f : Engine} (before : Later e f) (db : Database) (context : String) (q : Query) :
    Later e (db.count context q f).2

theorem Engine.Later.ages {e f : Engine} (later : e.Later f) : e.arena.Ages f.arena := by
  induction later with
  | now => exact (Arena.Restocks.refl _).ages
  | aside before still ih => rwa [still]
  | opening before origin settings contents registry ih =>
    exact ih.trans (Database.openWith_ages origin settings contents registry _)
  | @query f before _ _ _ h db context q script pager own ih =>
    have paired := Database.paired_steps h.databases h.contexts db.snapshot.source f.arena db.pool
      context q (some script)
    exact ih.trans (Database.run_restocks paired _ _).2.ages
  | count before db context q ih => exact ih.trans (db.count_restocks context q _).ages

namespace Handles

/-- A caller has opened each of its files once, with some settings, in a process that began with
nothing and has done anything else since then. It names its contexts apart. -/
structure Lives (h : Handles ι κ) (files : ι → View) (settings : ι → Settings) (e : Engine) :
    Prop where
  opened : ∀ i, ∃ origin registry before after, Engine.start.Later before ∧
    Database.openWith origin (settings i) (.ok (files i)) registry before =
      (.ok (h.databases i), after) ∧ after.Later e
  pools : h.pool.Injective
  contexts : h.contexts.Injective

variable {h h' worn fresh : Handles ι κ} {files : ι → View} {settings : ι → Settings}
  {e f : Engine}

structure Rests (h : Handles ι κ) (settings : ι → Settings) (e : Engine) (i : ι) : Prop where
  usable : (h.databases i).snapshot.Usable
  sets : (h.databases i).setsPerQuery = (settings i).setsPerQuery
  pool : (e.arena.pool (h.pool i)).Agrees
    (.empty (h.databases i).documents (settings i).concurrentSets)
  idle : ∀ name, (e.arena.context name).busy = false
  stocked : e.arena.Stocked

theorem Lives.rests (lives : h.Lives files settings e)
    (placed : ∀ i, (files i).start + File.headerLength < sizeLimit) (i : ι) :
    h.Rests settings e i := by
  obtain ⟨origin, registry, before, after, past, opened, since⟩ := lives.opened i
  have ages := since.ages
  have ancient := (past.ages.trans (Database.openWith_ages origin (settings i) (.ok (files i))
    registry before)).trans (by rw [opened]; exact ages)
  obtain ⟨file, loaded, sets, pool, arena⟩ := Database.openWith_eq_ok opened
  constructor
  · exact (Database.openWith_usable (placed i) opened).1
  · exact sets
  · -- The pool was new when the file was opened, and has only aged since.
    have pool : h.pool i = before.arena.pools.size := pool
    apply ages.agrees
    · rw [arena, pool, Arena.addPool, Array.size_push]
      exact Nat.lt_succ_self _
    · rw [arena, Arena.pool_addPool, if_pos pool]
      exact ⟨rfl, rfl, rfl⟩
  · exact ancient.busy
  · exact ancient.stocked Arena.stocked_empty

theorem Lives.snapshot_eq (lives : h.Lives files settings e) (lives' : h'.Lives files settings f)
    (i : ι) : (h.databases i).snapshot = (h'.databases i).snapshot := by
  obtain ⟨_, _, _, _, _, opened, _⟩ := lives.opened i
  obtain ⟨_, _, _, _, _, opened', _⟩ := lives'.opened i
  obtain ⟨_, loaded, _⟩ := Database.openWith_eq_ok opened
  obtain ⟨_, loaded', _⟩ := Database.openWith_eq_ok opened'
  exact (Prod.mk.inj (Except.ok.inj (loaded.symm.trans loaded'))).2

theorem Lives.twins (placed : ∀ i, (files i).start + File.headerLength < sizeLimit)
    (lives : h.Lives files settings e) (lives' : h'.Lives files settings f) : h.Twins h' where
  snapshot := lives.snapshot_eq lives'
  sets i := (lives.rests placed i).sets.trans (lives'.rests placed i).sets.symm
  pools _ _ := lives.pools.eq_iff.trans lives'.pools.eq_iff.symm
  contexts _ _ := lives.contexts.eq_iff.trans lives'.contexts.eq_iff.symm

/-- Two processes that opened the same files agree whenever no query runs. -/
theorem Lives.alike (placed : ∀ i, (files i).start + File.headerLength < sizeLimit)
    (lives : h.Lives files settings e) (lives' : h'.Lives files settings f) (i : ι) :
    h.Alike h' e.arena f.arena where
  pools j := by
    have here := (lives.rests placed j).pool
    have there := (lives'.rests placed j).pool
    rw [Database.documents, ← lives.snapshot_eq lives' j] at there
    exact ⟨here.size.trans there.size.symm, here.maxConcurrent.trans there.maxConcurrent.symm,
      here.inFlight.trans there.inFlight.symm⟩
  small j := by
    have rests := lives.rests placed j
    rw [rests.pool.size]
    exact rests.usable.payloads.room
  busy k := by rw [(lives.rests placed i).idle, (lives'.rests placed i).idle]
  stocked := (lives.rests placed i).stocked
  stocked' := (lives'.rests placed i).stocked

end Handles

def Processor.traced (p : Processor ρ) : Processor (ρ × List (Nat × View)) :=
  fun document payload (e, own, seen) =>
    let (more, e, own) := p document payload (e, own)
    (more, e, own, seen ++ [(document, payload)])

theorem Processor.Twins.traced {h h' : Handles ι κ} {p q : Processor ρ}
    (same : Processor.Twins h h' p q) : Processor.Twins h h' p.traced q.traced := by
  rintro document payload e f ⟨own, seen⟩ alike
  obtain ⟨more, e', f', own', called, called', after⟩ := same document payload e f own alike
  refine ⟨more, e', f', (own', seen ++ [(document, payload)]), ?_, ?_, after⟩
  · simp only [Processor.traced, called]
  · simp only [Processor.traced, called']

/-- What a query answers, and what it hands its processor in which order, does not depend on what
was done with the databases and contexts before: it is the same in two processes that have opened
the same files with the same settings, one of which may have done nothing else. -/
theorem Handles.history_unseen {worn fresh : Handles ι κ} {files : ι → View}
    {settings : ι → Settings} {e f : Engine}
    (placed : ∀ i, (files i).start + File.headerLength < sizeLimit)
    (lived : worn.Lives files settings e) (young : fresh.Lives files settings f) (i : ι) (k : κ)
    (q : Query) {script : Nat → View → ρ → Script ι κ ρ}
    (blind : ∀ document payload own, (script document payload own).Blind) (own : ρ) :
    let here := (Script.processor worn.databases worn.contexts script).traced
    let there := (Script.processor fresh.databases fresh.contexts script).traced
    (let ran := (worn.databases i).execute (worn.contexts k) q here e (own, [])
      let ran' := (fresh.databases i).execute (fresh.contexts k) q there f (own, [])
      ran.1 = ran'.1 ∧ ran.2.2 = ran'.2.2) ∧
    (let ran := (worn.databases i).executeAndCount (worn.contexts k) q here e (own, [])
      let ran' := (fresh.databases i).executeAndCount (fresh.contexts k) q there f (own, [])
      ran.1 = ran'.1 ∧ ran.2.2 = ran'.2.2) ∧
    ((worn.databases i).count (worn.contexts k) q e).1 =
      ((fresh.databases i).count (fresh.contexts k) q f).1 := by
  intro here there
  have twins := lived.twins placed young
  have alike := lived.alike placed young i
  have same : Processor.Twins worn fresh here there := (Script.processor_twins twins blind).traced
  obtain ⟨result, pager, e', f', kept, ran, ran', _⟩ :=
    Database.run_twins twins alike same i k q (.start q.skip q.limit) (own, [])
  obtain ⟨counted, _, _, count, count', _⟩ := Database.count_twins twins alike i k q
  refine ⟨?_, ?_, ?_⟩
  · simp only [Database.execute, ran, ran', and_self]
  · simp only [Database.executeAndCount, ran, ran', and_self]
  · rw [count, count']

namespace Database

def stopping (_ : Nat) (_ : View) (own : Nat) : Script Unit Unit Nat := .answer false (own + 1)

def counting (_ : Nat) (_ : View) (own : Nat) : Script Unit Unit Nat :=
  .count () () ⟨[.test "a" (.less [2] true)], [], 0, none⟩ fun _ => .answer true (own + 1)

/-- A process has opened a file, and a caller uses it on one context. -/
theorem lives_of_openMemory {db : Database} {bytes : Bytes} {settings : Settings}
    {opened e : Engine} (made : openMemory bytes settings (.own 0) .start = (.ok db, opened))
    (later : opened.Later e) (context : String) :
    Handles.Lives (ι := Unit) (κ := Unit) ⟨fun _ => db, fun _ => context⟩
      (fun _ => View.ofBytes bytes) (fun _ => settings) e where
  opened _ := ⟨memory, .own 0, .start, opened, .now, made, later⟩
  pools _ _ _ := rfl
  contexts _ _ _ := rfl

theorem history_unseen_unsorted : ∃ (db : Database) (opened worn : Engine),
    openMemory unsortedFile trusting (.own 0) .start = (.ok db, opened) ∧
      worn = (db.run "c" ⟨[.test "a" (.less [2] true)], [], 0, none⟩
        (some (Script.processor (fun _ : Unit => db) (fun _ : Unit => "c") stopping))
        (.start 0 none) opened 0).2.2.1 ∧
      (db.execute "c" .everything
        (Script.processor (fun _ => db) (fun _ => "c") counting).traced worn (0, [])).1 = .ok 2 := by
  have answered : ((openMemory unsortedFile trusting (.own 0) .start).1.toOption.bind fun db =>
      (db.execute "d" .everything (Script.processor (fun _ => db) (fun _ => "d") counting).traced
        (openMemory unsortedFile trusting (.own 0) .start).2 (0, [])).1.toOption) = some 2 := by
    decide +kernel
  cases made : openMemory unsortedFile trusting (.own 0) .start with
  | mk result opened =>
    rw [made] at answered
    cases result with
    | error failure => contradiction
    | ok db =>
      have fresh := lives_of_openMemory made .now "d"
      have lived := lives_of_openMemory made (.query .now ⟨fun _ : Unit => db, fun _ : Unit => "c"⟩ db
        "c" ⟨[.test "a" (.less [2] true)], [], 0, none⟩ stopping (.start 0 none) 0) "c"
      have blind : ∀ document payload own, (counting document payload own).Blind :=
        fun _ _ _ _ => trivial
      have same :=
        (Handles.history_unseen (fun _ => File.placed_ofBytes unsortedFile) lived fresh () ()
          .everything blind 0).1.1
      obtain ⟨after, two⟩ := ok_of_toOption answered
      exact ⟨db, opened, _, rfl, rfl, same.trans (congrArg Prod.fst two)⟩

end Database

end DocStore
