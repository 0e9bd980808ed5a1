import DocStore.Proofs.Database.Execution
import DocStore.Proofs.Pool.Balances
import DocStore.Proofs.Query.Scripts

/-! A query leaves the counters of the pools and the busy contexts as it found them, however it
ends, when its processor does nothing with them but to issue further queries. -/
namespace DocStore

variable {ρ : Type}

namespace Arena

/-- Since `a` a query has been opened on a context, and has sets of a pool out. -/
structure Lent (a : Arena) (pool : Nat) (context : String) (out : Nat) (b : Arena) : Prop where
  count : b.pools.size = a.pools.size
  counters : ∀ id, b.pool id = { a.pool id with
    inFlight := (a.pool id).inFlight + if id = pool then out else 0
    free := (b.pool id).free }
  busy : ∀ name, (b.context name).busy = if name = context then true else (a.context name).busy
  stocked : a.Stocked → b.Stocked

variable {a b c : Arena} {pool out : Nat} {context : String}

theorem Lent.inFlight (lent : a.Lent pool context out b) (id : Nat) :
    (b.pool id).inFlight = (a.pool id).inFlight + if id = pool then out else 0 := by
  rw [lent.counters]

theorem Lent.restock (lent : a.Lent pool context out b) (moves : b.Restocks c) :
    a.Lent pool context out c where
  count := moves.count.trans lent.count
  counters id := by rw [moves.counters, lent.counters]
  busy name := (moves.busy name).trans (lent.busy name)
  stocked stocked := moves.stocked (lent.stocked stocked)

theorem lent_opened (a : Arena) (pool : Nat) (context : String) :
    a.Lent pool context 0 (a.modifyContext context fun c => { c with busy := true }) where
  count := rfl
  counters id := by
    rw [ite_self]
    rfl
  busy name := by
    rw [context_modifyContext]
    split <;> rfl
  stocked := (recounts_modifyContext a context true).stocked

end Arena

namespace Lender

variable {a : Arena} {l : Lender} {n : Nat}

theorem lent_lent (free : l.borrowRefusal? = none)
    (lent : a.Lent l.scratch.pool l.scratch.context n l.arena) :
    a.Lent l.scratch.pool l.scratch.context (n + 1) l.lent.arena where
  count := (Arena.size_modifyPool _ _ _).trans lent.count
  busy := lent.busy
  stocked stocked := (recounts_lent l).stocked (lent.stocked stocked)
  counters id := by
    rw [(recounts_lent l).pools, inFlight_lent free, lent.counters]
    split <;> rfl

theorem lent_returned (lent : a.Lent l.scratch.pool l.scratch.context (n + 1) l.arena) :
    a.Lent l.scratch.pool l.scratch.context n l.returned.arena where
  count := (Arena.size_modifyPool _ _ _).trans lent.count
  busy := lent.busy
  stocked stocked := (recounts_returned l).stocked (lent.stocked stocked)
  counters id := by
    rw [(recounts_returned l).pools, inFlight_returned, lent.counters]
    split <;> rfl

/-- Closing writes off what is out and frees the context, so that only kept sets have moved. -/
theorem restocks_closed
    (lent : a.Lent l.scratch.pool l.scratch.context l.scratch.outstanding l.arena)
    (idle : (a.context l.scratch.context).busy = false) : a.Restocks l.closed.arena where
  count := (Arena.size_modifyPool _ _ _).trans lent.count
  stocked stocked := (recounts_closed l).stocked (lent.stocked stocked)
  counters id := by
    rw [(recounts_closed l).pools, inFlight_closed, lent.counters]
    split
    · simp only [Nat.add_sub_cancel]
    · rfl
  busy name := by
    rw [busy_closed, lent.busy]
    split
    · rename_i own
      rw [own, idle]
    · rfl

end Lender

structure Run.Holds (base : Arena) (pool : Nat) (context : String) (held : Nat) (s t : Run ρ) :
    Prop where
  same : s = t
  unclosed : s.scratch.released = false
  lender : s.scratch.pool = pool
  caller : s.scratch.context = context
  outstanding : s.scratch.outstanding = held
  lent : base.Lent pool context held s.engine.arena

/-- Two processors do the same while a context is busy, and leave all but kept sets
as it is. -/
def Processor.Restores (context : String) (p q : Processor ρ) : Prop :=
  ∀ document payload e own, (e.arena.context context).busy = true →
    p document payload (e, own) = q document payload (e, own) ∧
      e.arena.Restocks (p document payload (e, own)).2.1.arena

theorem Processor.restores_idle (context : String) :
    Processor.Restores (ρ := ρ) context (fun _ _ => pure true) fun _ _ => pure true :=
  fun _ _ e _ _ => ⟨rfl, Arena.Restocks.refl e.arena⟩

open Running in
/-- While a query runs, every set that it borrows or gives back is counted. -/
theorem lockstep_holds {base : Arena} {pool : Nat} {context running : String} {p q : Processor ρ}
    (busy : running = context ∨ (base.context running).busy = true)
    (restores : Processor.Restores running p q) :
    Lockstep (Run.Holds (ρ := ρ) base pool context) p q where
  pager alike := by rw [alike.same]
  turn pager alike := by
    obtain ⟨rfl, unclosed, lender, caller, outstanding, lent⟩ := alike
    exact ⟨rfl, unclosed, lender, caller, outstanding, lent⟩
  borrow n := by
    rintro s t ⟨rfl, unclosed, rfl, rfl, outstanding, lent⟩
    rcases Lending.borrow_cases ⟨s.scratch, s.engine.arena⟩ with
      ⟨e, _, ran⟩ | ⟨answer, arena, ran, free, moves, _⟩
    · have ran := run_lend ran
      exact ⟨_, _, _, n, ran, ran, ⟨rfl, unclosed, rfl, rfl, outstanding, lent⟩, nofun⟩
    · have ran := run_lend ran
      have more := (Lender.lent_lent free lent).restock moves
      exact ⟨_, _, _, n + 1, ran, ran,
        ⟨rfl, unclosed, rfl, rfl, congrArg (· + 1) outstanding, more⟩, fun _ _ => rfl⟩
  giveBack n set := by
    rintro s t ⟨rfl, unclosed, rfl, rfl, outstanding, lent⟩
    rcases Lending.giveBack_cases ⟨s.scratch, s.engine.arena⟩ set with
      ⟨e, _, ran⟩ | ⟨arena, ran, free, moves⟩
    · have ran := run_lend ran
      exact ⟨_, _, _, n + 1, ran, ran, ⟨rfl, unclosed, rfl, rfl, outstanding, lent⟩, nofun⟩
    · have ran := run_lend ran
      have less := (Lender.lent_returned (l := ⟨s.scratch, s.engine.arena⟩) lent).restock moves
      exact ⟨_, _, _, n, ran, ran,
        ⟨rfl, unclosed, rfl, rfl, congrArg (· - 1) outstanding, less⟩, fun _ _ => rfl⟩
  process n document payload := by
    rintro s t ⟨rfl, unclosed, rfl, rfl, outstanding, lent⟩
    have known : (s.engine.arena.context running).busy = true := by
      rw [lent.busy]
      split
      · rfl
      · rename_i other
        exact busy.resolve_left other
    obtain ⟨agree, settled⟩ := restores document payload s.engine s.own known
    cases called : p document payload (s.engine, s.own) with
    | mk more after =>
      obtain ⟨engine, own⟩ := after
      rw [called] at agree settled
      have ran := run_process called
      have ran' := run_process agree.symm
      exact ⟨_, _, _, n, ran, ran',
        ⟨rfl, unclosed, rfl, rfl, outstanding, lent.restock settled⟩, fun _ _ => rfl⟩

namespace Database

variable {db : Database} {context running : String} {q : Query} {pager : Pager} {e : Engine}
  {own : ρ} {p? q? : Option (Processor ρ)} {p p' : Processor ρ}

theorem holds_opened (db : Database) (context : String) (pager : Pager) (e : Engine) (own : ρ) :
    Run.Holds e.arena db.pool context 0 (db.opened context pager e own)
      (db.opened context pager e own) :=
  ⟨rfl, rfl, rfl, rfl, rfl, Arena.lent_opened e.arena db.pool context⟩

theorem restocks_close {n : Nat} {s : Run ρ}
    (holds : Run.Holds e.arena db.pool context n s s)
    (idle : (e.arena.context context).busy = false) : e.arena.Restocks s.close.arena := by
  obtain ⟨_, unclosed, lender, caller, outstanding, lent⟩ := holds
  rw [← lender, ← caller, ← outstanding] at lent
  rw [← caller] at idle
  have closing : s.close.arena = (Lender.closed ⟨s.scratch, s.engine.arena⟩).arena := by
    rw [Run.close, Scratch.drop, if_neg (by simp [unclosed])]
    rfl
  rw [closing]
  exact Lender.restocks_closed lent idle

theorem run_restocks
    (paired : Paired (Run.Holds (ρ := ρ) e.arena db.pool context) 0
      (steps db.snapshot.source q p?) (steps db.snapshot.source q q?) fun _ => 0)
    (pager : Pager) (own : ρ) :
    db.run context q p? pager e own = db.run context q q? pager e own ∧
      e.arena.Restocks (db.run context q p? pager e own).2.2.1.arena := by
  cases busy : (e.arena.context context).busy with
  | true =>
    rw [run_busy busy, run_busy busy]
    exact ⟨rfl, Arena.Restocks.refl _⟩
  | false =>
    obtain ⟨result, s, t, n, ran, ran', holds, _⟩ :=
      paired _ _ (holds_opened db context pager e own)
    obtain rfl := holds.same
    rw [run_idle busy ran, run_idle busy ran']
    constructor
    · rfl
    · rw [arena_reported]
      exact restocks_close holds busy

theorem run_agrees (db : Database) (context : String) (q : Query) (pager : Pager) (own : ρ)
    (busy : running = context ∨ (e.arena.context running).busy = true)
    (restores : Processor.Restores running p p') :
    db.run context q (some p) pager e own = db.run context q (some p') pager e own ∧
      e.arena.Restocks (db.run context q (some p) pager e own).2.2.1.arena := by
  apply run_restocks
  exact (lockstep_holds busy restores).steps q

theorem count_restocks (db : Database) (context : String) (q : Query) (e : Engine) :
    e.arena.Restocks (db.count context q e).2.arena := by
  have idle : Lockstep (Run.Holds (ρ := Unit) e.arena db.pool context) _ _ :=
    lockstep_holds (Or.inl rfl) (Processor.restores_idle context)
  exact (run_restocks (idle.selecting q) (.start 0 none) ()).2

end Database

/-- While a context is busy, a script does what it would do if its queries on that context were
not made, and leaves the counters as they are. -/
theorem Script.perform_refusing {ι κ : Type} (databases : ι → Database) (contexts : κ → String)
    (running : String) (script : Script ι κ ρ) (e : Engine)
    (busy : (e.arena.context running).busy = true) :
    script.perform databases contexts e =
        (script.refusing contexts running).perform databases contexts e ∧
      e.arena.Restocks (script.perform databases contexts e).2.1.arena := by
  -- A query on the running context is refused; after any other the context is still busy.
  induction script generalizing e with
  | answer more own => exact ⟨rfl, Arena.Restocks.refl _⟩
  | touch change still next ih =>
    have later := ih (change e) (change e) (by rwa [still])
    rw [still] at later
    exact later
  | query database context q pager own processor next inner ih =>
    by_cases same : contexts context = running
    · rw [perform_query (Database.run_busy (same ▸ busy) _), refusing, if_pos same]
      exact ih _ _ _ e busy
    · have restores : Processor.Restores running (Script.processor databases contexts processor)
          (Script.processor databases contexts fun document payload own =>
            (processor document payload own).refusing contexts running) :=
        fun document payload own e busy => inner document payload e own busy
      obtain ⟨agree, settled⟩ := Database.run_agrees (databases database) (contexts context) q
        pager own (Or.inr busy) restores
      cases ran : (databases database).run (contexts context) q
        (some (Script.processor databases contexts processor)) pager e own with
      | mk result after =>
        obtain ⟨pager', e', own'⟩ := after
        rw [ran] at agree settled
        rw [perform_query ran, refusing, if_neg same, perform_query agree.symm]
        have busy' : (e'.arena.context running).busy = true := (settled.busy running).trans busy
        obtain ⟨equal, later⟩ := ih result pager' own' e' busy'
        exact ⟨equal, settled.trans later⟩
  | count database context q next ih =>
    by_cases same : contexts context = running
    · rw [perform_count (Database.count_busy (same ▸ busy)), refusing, if_pos same]
      exact ih _ e busy
    · have settled := Database.count_restocks (databases database) (contexts context) q e
      cases ran : (databases database).count (contexts context) q e with
      | mk result e' =>
        rw [ran] at settled
        rw [perform_count ran, refusing, if_neg same, perform_count ran]
        have busy' : (e'.arena.context running).busy = true := (settled.busy running).trans busy
        obtain ⟨equal, later⟩ := ih result e' busy'
        exact ⟨equal, settled.trans later⟩

/-- Scripts for a processor restore what they find, and do nothing on the context that runs. -/
theorem Script.processor_restores {ι κ : Type} (databases : ι → Database) (contexts : κ → String)
    (running : String) (script : Nat → View → ρ → Script ι κ ρ) :
    Processor.Restores running (processor databases contexts script)
      (processor databases contexts fun document payload own =>
        (script document payload own).refusing contexts running) :=
  fun document payload e own busy =>
    (script document payload own).perform_refusing databases contexts running e busy

namespace Database

variable {ι κ : Type}

theorem paired_steps (databases : ι → Database) (contexts : κ → String) (source : Source)
    (base : Arena) (pool : Nat) (context : String) (q : Query)
    (script? : Option (Nat → View → ρ → Script ι κ ρ)) :
    Paired (Run.Holds (ρ := ρ) base pool context) 0
      (steps source q (script?.map (Script.processor databases contexts)))
      (steps source q (script?.map fun script => Script.processor databases contexts
        fun document payload own => (script document payload own).refusing contexts context))
      fun _ => 0 := by
  cases script? with
  | none => exact (lockstep_holds (Or.inl rfl) (Processor.restores_idle context)).selecting q
  | some script =>
    have restores := Script.processor_restores databases contexts context script
    exact (lockstep_holds (Or.inl rfl) restores).steps q

/-- A query restores the counters of all pools and leaves busy exactly the contexts that were,
whatever ends it. Queries that its processor issues on its own context, at any depth, find the
context busy and do nothing. A query that ends well has given back every set when it is closed. -/
theorem run_restores (db : Database) (databases : ι → Database) (contexts : κ → String)
    (context : String) (q : Query) (script? : Option (Nat → View → ρ → Script ι κ ρ))
    (pager : Pager) (e : Engine) (own : ρ) :
    let processor? := script?.map (Script.processor databases contexts)
    let refusing? := script?.map fun script => Script.processor databases contexts
      fun document payload own => (script document payload own).refusing contexts context
    let after := db.run context q processor? pager e own
    ((∀ id, (after.2.2.1.arena.pool id).inFlight = (e.arena.pool id).inFlight) ∧
      ∀ name, (after.2.2.1.arena.context name).busy = (e.arena.context name).busy) ∧
    after = db.run context q refusing? pager e own ∧
    ((e.arena.context context).busy = true →
      after = (.error (.refused .contextBusy), pager, e, own)) ∧
    ∀ start outcome ended, Run.start e context db.pool db.setsPerQuery pager own = .ok start →
      (ExceptT.run (steps db.snapshot.source q processor?)).run start = (.ok outcome, ended) →
        ended.scratch.outstanding = 0 ∧
          ∀ id, (ended.engine.arena.pool id).inFlight = (e.arena.pool id).inFlight := by
  intro processor? refusing? after
  have paired :=
    paired_steps databases contexts db.snapshot.source e.arena db.pool context q script?
  obtain ⟨agree, settled⟩ := run_restocks paired pager own
  refine ⟨⟨settled.inFlight, settled.busy⟩, agree, fun busy => run_busy busy _, ?_⟩
  intro start outcome ended started ran
  cases busy : (e.arena.context context).busy with
  | true =>
    rw [start_busy busy] at started
    contradiction
  | false =>
    rw [start_idle busy] at started
    obtain rfl := Except.ok.inj started
    obtain ⟨answer, s, t, n, stepped, _, holds, count⟩ :=
      paired _ _ (holds_opened db context pager e own)
    obtain ⟨rfl, rfl⟩ := Prod.mk.inj (stepped.symm.trans ran)
    obtain rfl := count outcome rfl
    constructor
    · exact holds.outstanding
    · intro id
      have same := holds.lent.inFlight id
      rw [ite_self] at same
      exact same

end Database

end DocStore
