import DocStore.Proofs.Database.Metering
import DocStore.Proofs.Query.Demand

/-! Quotas that suffice. A query whose demand both quotas cover is lent every set that it asks for,
so that it ends well. -/
namespace DocStore

variable {ρ α β : Type} {start : Arena} {pool size base quota held : Nat}

namespace Lender

/-- A lender has some sets of a pool out, and it and the pool have sets enough for a quota. The
pool has `base` more sets out, and since `start` all pools lend as they did. -/
structure Supplied (start : Arena) (pool base quota held : Nat) (l : Lender) : Prop where
  unclosed : l.scratch.released = false
  lender : l.scratch.pool = pool
  outstanding : l.scratch.outstanding = held
  limit : quota ≤ l.scratch.limit
  inFlight : (l.arena.pool pool).inFlight = base + held
  room : base + quota ≤ (l.arena.pool pool).maxConcurrent
  since : start.Keeps l.arena

variable {l : Lender}

theorem Supplied.borrow (supplied : l.Supplied start pool base quota held)
    (lends : start.Lends pool size) (small : size + 63 < sizeLimit) (more : held < quota) :
    ∃ l', (ExceptT.run Lending.borrow).run l = (.ok (.empty size), l') ∧
      l'.Supplied start pool base quota (held + 1) := by
  obtain ⟨unclosed, rfl, rfl, limit, count, room, since⟩ := supplied
  have free : l.borrowRefusal? = none :=
    borrowRefusal?_eq_none.mpr ⟨unclosed, by omega, by omega⟩
  rcases Lending.borrow_cases l with ⟨e, refused, _⟩ | ⟨answer, arena, ran, _, moves, never, _⟩
  · rw [free] at refused
    contradiction
  · have met := Lending.borrow_meets (since _ _ lends) small
    unfold Meets at met
    rw [ran] at met
    cases answer with
    | error failure =>
      cases failure with
      | refused e => exact absurd rfl (never e)
      | fault cause => exact met.elim
    | ok set =>
      obtain ⟨rfl, moved, _⟩ := met
      refine ⟨_, ran, unclosed, rfl, rfl, limit, ?_, ?_, since.trans moved.keeps⟩
      · rw [moves.inFlight, inFlight_lent free, if_pos rfl, count, Nat.add_assoc]
      · rw [moves.maxConcurrent, (recounts_lent l).maxConcurrent]
        exact room

theorem Supplied.giveBack (supplied : l.Supplied start pool base quota (held + 1))
    (lends : start.Lends pool size) {set : ArraySet} (fits : set.size = size) :
    ∃ l', (ExceptT.run (Lending.giveBack set)).run l = (.ok (), l') ∧
      l'.Supplied start pool base quota held := by
  obtain ⟨unclosed, rfl, out, limit, count, room, since⟩ := supplied
  have free : l.returnRefusal? set.size = none :=
    returnRefusal?_eq_none.mpr
      ⟨unclosed, fits.trans (since _ _ lends).pool_eq.1.symm, by omega⟩
  rcases Lending.giveBack_cases l set with ⟨e, refused, _⟩ | ⟨arena, ran, _, moves⟩
  · rw [free] at refused
    contradiction
  · have moved := (Lending.giveBack_meets (by omega)).ok_of_run ran
    have left : l.scratch.outstanding - 1 = held := by omega
    refine ⟨_, ran, unclosed, rfl, left, limit, ?_, ?_, since.trans moved.1.keeps⟩
    · rw [moves.inFlight, inFlight_returned, if_pos rfl, count]
      omega
    · rw [moves.maxConcurrent, (recounts_returned l).maxConcurrent]
      exact room

end Lender

/-- A processor leaves as many sets of a pool out as there were. One that does not use the pool
does, and so does one whose queries give back what they borrow. -/
def Processor.LeavesCounts (p : Processor ρ) (pool : Nat) : Prop :=
  ∀ (document : Nat) (payload : View) (e : Engine) (own : ρ),
    let after := (p document payload (e, own)).2.1
    (after.arena.pool pool).inFlight = (e.arena.pool pool).inFlight ∧
      (after.arena.pool pool).maxConcurrent = (e.arena.pool pool).maxConcurrent

def Run.Supplied (start : Arena) (pool base quota held : Nat) (s : Run ρ) : Prop :=
  Lender.Supplied start pool base quota held ⟨s.scratch, s.engine.arena⟩

/-- Whatever a computation ends with, it was not refused, and a value comes with `post` and with
sets enough for what follows. -/
def Goes (start : Arena) (pool base quota : Nat) (post : α → Nat → Prop) :
    Except (Failure PoolError) α × Run ρ → Prop
  | (.ok a, s) => ∃ now, post a now ∧ s.Supplied start pool base quota now
  | (.error (.fault _), _) => True
  | (.error (.refused _), _) => False

section Following

variable {p : Processor ρ} {s : Run ρ} {post : α → Nat → Prop}
  (lends : start.Lends pool size) (small : size + 63 < sizeLimit)
  (tame : p.Tame start) (leaves : p.LeavesCounts pool)

include lends small tame leaves

open Running in
/-- A step that keeps to a quota is not refused. -/
theorem Ask.run_goes {step : Ask α} (within : step.Within size quota post held)
    (supplied : s.Supplied start pool base quota held) :
    Goes start pool base quota post ((ExceptT.run (step.run p)).run s) := by
  cases step with
  | borrow =>
    obtain ⟨l, lent, more⟩ := Lender.Supplied.borrow supplied lends small within.1
    rw [Ask.run, Running.borrow, run_lend lent]
    exact ⟨_, within.2, more⟩
  | giveBack set =>
    obtain ⟨fits, some, later⟩ := within
    obtain ⟨left, rfl⟩ := Nat.exists_eq_add_of_lt some
    rw [Nat.zero_add] at supplied later
    obtain ⟨l, taken, less⟩ := Lender.Supplied.giveBack supplied lends fits
    rw [Ask.run, Running.giveBack, run_lend taken]
    exact ⟨_, later, less⟩
  | offer => exact ⟨_, within _, supplied⟩
  | isDone => exact ⟨_, within _, supplied⟩
  | process document payload =>
    have keeps := tame document payload s.engine s.own supplied.since
    have counts := leaves document payload s.engine s.own
    cases called : p document payload (s.engine, s.own) with
    | mk more after =>
      obtain ⟨engine, own⟩ := after
      rw [called] at keeps counts
      rw [Ask.run, run_process called]
      obtain ⟨unclosed, lender, out, limit, count, room, since⟩ := supplied
      exact ⟨_, within more, unclosed, lender, out, limit, counts.1.trans count,
        counts.2.symm ▸ room, since.trans keeps⟩

/-- A plan that keeps to a quota is not refused. -/
theorem Plan.run_goes {plan : Plan α} (within : plan.Within size quota post held)
    (supplied : s.Supplied start pool base quota held) :
    Goes start pool base quota post ((ExceptT.run (plan.run p)).run s) := by
  induction plan generalizing s held with
  | done a => exact ⟨held, within, supplied⟩
  | broken cause => trivial
  | ask step next ih =>
    rw [Plan.run, Meets.run_bind]
    have gone := Ask.run_goes lends small tame leaves within supplied
    unfold Goes at gone
    split at gone
    · rename_i answer b t ran
      obtain ⟨now, later, enough⟩ := gone
      rw [ran]
      exact ih b later enough
    · rename_i ran
      rw [ran]
      trivial
    · exact gone.elim

end Following

namespace Database

variable {db : Database} {e : Engine} {context : String} {q : Query}

section Ending

variable {p? : Option (Processor ρ)} (usable : db.snapshot.Usable) (attached : db.Attached e)
  (tame : (p?.getD .idle).Tame e.arena) (pager : Pager) (own : ρ)

include usable attached tame

/-- A query is refused or ends well. -/
theorem run_ends :
    (∃ error, (db.run context q p? pager e own).1 = .error (.refused error)) ∨
      ∃ outcome, (db.run context q p? pager e own).1 = .ok outcome := by
  obtain ⟨passes, answers⟩ := usable.answers
  cases p? with
  | none =>
    refine (run_counts answers attached rfl).2.imp_right ?_
    rintro ⟨outcome, _, done, _⟩
    exact ⟨outcome, done⟩
  | some p =>
    obtain ⟨_, _, _, _, _, _, _, ended⟩ := run_serves answers usable.sound tame attached rfl
    refine ended.imp_right ?_
    rintro ⟨outcome, _, done, _⟩
    exact ⟨outcome, done⟩

/-- A query on an idle context ends well if the quotas cover its demand. -/
theorem run_ok (leaves : (p?.getD .idle).LeavesCounts db.pool)
    (idle : (e.arena.context context).busy = false) (limit : q.demand ≤ db.setsPerQuery)
    (room : (e.arena.pool db.pool).inFlight + q.demand ≤ (e.arena.pool db.pool).maxConcurrent) :
    ∃ outcome after, db.run context q p? pager e own = (.ok outcome, after) := by
  obtain ⟨passes, answers⟩ := usable.answers
  have supplied : (db.opened context pager e own).Supplied e.arena db.pool
      (e.arena.pool db.pool).inFlight q.demand 0 :=
    ⟨rfl, rfl, rfl, limit, rfl, room, Arena.keeps_modifyContext _ _⟩
  have goes := Plan.run_goes attached answers.small tame leaves
    (Plan.query_within answers q p?.isSome le_rfl) supplied
  rw [run_plan] at goes
  have ends := @run_ends ρ db e context q p? usable attached tame pager own
  cases ran : (ExceptT.run (steps db.snapshot.source q p?)).run
      (db.opened context pager e own) with
  | mk result ended =>
    rw [ran] at goes
    rw [run_idle idle ran] at ends ⊢
    rcases ends with ⟨error, rfl⟩ | ⟨outcome, rfl⟩
    · exact goes.elim
    · exact ⟨outcome, _, rfl⟩

end Ending

/-- A query on a context that runs no other one ends well when the quotas cover its demand, however
many documents, groups and conditions there are. -/
theorem quota_suffices {origin : String} {settings : Settings} {file : View} {registry : Registry}
    {before opened : Engine}
    (placed : file.start + File.headerLength < sizeLimit)
    (accepted : openWith origin settings (.ok file) registry before = (.ok db, opened))
    (later : opened.arena.Keeps e.arena) (idle : (e.arena.context context).busy = false)
    (limit : q.demand ≤ settings.setsPerQuery)
    (room : (e.arena.pool db.pool).inFlight + q.demand ≤ (e.arena.pool db.pool).maxConcurrent) :
    (∃ n after, db.count context q e = (.ok n, after)) ∧
      ∀ {ρ : Type} (processor : Processor ρ) (own : ρ), processor.Tame e.arena →
        processor.LeavesCounts db.pool →
        (∃ n after, db.execute context q processor e own = (.ok n, after)) ∧
          ∃ n after, db.executeAndCount context q processor e own = (.ok n, after) := by
  obtain ⟨usable, attached⟩ := openWith_usable placed accepted
  have attached : db.Attached e := later _ _ attached
  obtain ⟨_, _, sets, _⟩ := openWith_eq_ok accepted
  have limit : q.demand ≤ db.setsPerQuery := sets ▸ limit
  constructor
  · have still : (Processor.idle (ρ := Unit)).LeavesCounts db.pool := fun _ _ _ _ => ⟨rfl, rfl⟩
    obtain ⟨outcome, after, ran⟩ := @run_ok Unit db e context q none usable attached (tame_idle _)
      (.start 0 none) () still idle limit room
    rw [count, ran]
    exact ⟨_, _, rfl⟩
  · intro ρ processor own tame leaves
    obtain ⟨outcome, after, ran⟩ := @run_ok ρ db e context q (some processor) usable attached tame
      (.start q.skip q.limit) own leaves idle limit room
    rw [execute, executeAndCount, ran]
    exact ⟨⟨_, _, rfl⟩, _, _, rfl⟩

def threeFile : Bytes := (threeBuilder.finish .empty).1.toOption.elim [] SealedDatabase.bytes

def paired : Settings := { trusting with setsPerQuery := 2, concurrentSets := 2 }

def notBelowTwice : Query :=
  ⟨notBelow.conditions, [⟨"t", .ascending⟩, ⟨"t", .descending⟩], 0, none⟩

theorem quota_suffices_three : ∃ (db : Database) (opened : Engine),
    openMemory threeFile paired (.own 0) .start = (.ok db, opened) ∧
      notBelowTwice.demand = 2 ∧
      (∃ n after, db.count "c" notBelowTwice opened = (.ok n, after)) ∧
      ∃ n after, db.execute "c" notBelowTwice .listing opened [] = (.ok n, after) := by
  have two : notBelowTwice.demand = 2 := by decide +kernel
  obtain ⟨db, opened, made, idle, none, all⟩ := ok_of_any
    (fun db opened => (opened.arena.context "c").busy = false ∧
      (opened.arena.pool db.pool).inFlight = 0 ∧ (opened.arena.pool db.pool).maxConcurrent = 2)
    (show (openMemory threeFile paired (.own 0) .start).1.toOption.any _ = true by decide +kernel)
  have room : (opened.arena.pool db.pool).inFlight + notBelowTwice.demand ≤
      (opened.arena.pool db.pool).maxConcurrent := by rw [none, all, two]
  obtain ⟨counts, executes⟩ := quota_suffices (File.placed_ofBytes threeFile) made
    (Arena.Keeps.refl _) idle (Nat.le_of_eq two) room
  exact ⟨db, opened, made, two, counts, (executes Processor.listing []
    (Processor.tame_listing _) fun _ _ _ _ => ⟨rfl, rfl⟩).1⟩

/-- Counts all documents on the context that the documents come from, and writes down how many sets
are out then and what the answer is. -/
def countingInside (db : Database) :
    Processor (List (Nat × Except (Failure PoolError) Nat)) := fun _ _ (e, answers) =>
  let (answer, after) := db.count "c" .everything e
  (true, after, answers ++ [((e.arena.pool db.pool).inFlight, answer)])

/-- A query that needs no set, with none out, is refused while its context runs another one. -/
theorem busy_refuses : ∃ (db : Database) (opened : Engine),
    openMemory unsortedFile trusting (.own 0) .start = (.ok db, opened) ∧
      Query.everything.demand = 0 ∧
      (db.execute "c" .everything (countingInside db) opened []).2.2 =
        List.replicate 2 (0, .error (.refused .contextBusy)) := by
  obtain ⟨db, opened, made, refused⟩ := ok_of_any
    (fun db opened => (db.execute "c" .everything (countingInside db) opened []).2.2 =
      List.replicate 2 (0, .error (.refused .contextBusy)))
    (show (openMemory unsortedFile trusting (.own 0) .start).1.toOption.any _ = true by
      decide +kernel)
  exact ⟨db, opened, made, rfl, refused⟩

end Database

end DocStore
