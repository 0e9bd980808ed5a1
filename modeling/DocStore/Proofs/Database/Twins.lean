import DocStore.Proofs.Database.Execution
import DocStore.Proofs.Pool.Balances
import DocStore.Proofs.Query.Scripts

/-! The same databases in two processes. Where the counters agree, a query goes the same way in
both, whatever sets the pools and contexts keep. -/
namespace DocStore

variable {ι κ ρ : Type}

structure Handles (ι κ : Type) where
  databases : ι → Database
  contexts : κ → String

/-- Two pools agree in all but the sets that they keep. -/
structure Pool.Agrees (p q : Pool) : Prop where
  size : p.size = q.size
  maxConcurrent : p.maxConcurrent = q.maxConcurrent
  inFlight : p.inFlight = q.inFlight

namespace Handles

variable {h h' : Handles ι κ}

def pool (h : Handles ι κ) (i : ι) : Nat := (h.databases i).pool

/-- The same databases, each with a pool of its own, and contexts of different names. -/
structure Twins (h h' : Handles ι κ) : Prop where
  snapshot : ∀ i, (h.databases i).snapshot = (h'.databases i).snapshot
  sets : ∀ i, (h.databases i).setsPerQuery = (h'.databases i).setsPerQuery
  pools : ∀ i j, h.pool i = h.pool j ↔ h'.pool i = h'.pool j
  contexts : ∀ j k, h.contexts j = h.contexts k ↔ h'.contexts j = h'.contexts k

structure Alike (h h' : Handles ι κ) (a b : Arena) : Prop where
  pools : ∀ i, (a.pool (h.pool i)).Agrees (b.pool (h'.pool i))
  small : ∀ i, (a.pool (h.pool i)).size + 63 < sizeLimit
  busy : ∀ k, (a.context (h.contexts k)).busy = (b.context (h'.contexts k)).busy
  stocked : a.Stocked
  stocked' : b.Stocked

variable {a a' b b' : Arena} {i : ι} {k : κ}

theorem Alike.restock (alike : h.Alike h' a b) (moves : a.Restocks a') (moves' : b.Restocks b') :
    h.Alike h' a' b' where
  pools i := by
    obtain ⟨size, quota, inFlight⟩ := alike.pools i
    constructor
    · rwa [moves.size, moves'.size]
    · rwa [moves.maxConcurrent, moves'.maxConcurrent]
    · rwa [moves.inFlight, moves'.inFlight]
  small i := by
    rw [moves.size]
    exact alike.small i
  busy k := by
    rw [moves.busy, moves'.busy]
    exact alike.busy k
  stocked := moves.stocked alike.stocked
  stocked' := moves'.stocked alike.stocked'

theorem Alike.recount (alike : h.Alike h' a b) (changes : a.Recounts a') (changes' : b.Recounts b')
    (inFlight : ∀ i, (a'.pool (h.pool i)).inFlight = (b'.pool (h'.pool i)).inFlight)
    (busy : ∀ k, (a'.context (h.contexts k)).busy = (b'.context (h'.contexts k)).busy) :
    h.Alike h' a' b' where
  pools i := by
    constructor
    · rw [changes.size, changes'.size]
      exact (alike.pools i).size
    · rw [changes.maxConcurrent, changes'.maxConcurrent]
      exact (alike.pools i).maxConcurrent
    · exact inFlight i
  small i := by
    rw [changes.size]
    exact alike.small i
  busy := busy
  stocked := changes.stocked alike.stocked
  stocked' := changes'.stocked alike.stocked'

structure Lend (h h' : Handles ι κ) (i : ι) (k : κ) (l m : Lender) : Prop where
  pool : l.scratch.pool = h.pool i
  pool' : m.scratch.pool = h'.pool i
  context : l.scratch.context = h.contexts k
  context' : m.scratch.context = h'.contexts k
  scratch : m.scratch =
    { l.scratch with pool := m.scratch.pool, context := m.scratch.context }
  arenas : h.Alike h' l.arena m.arena

variable {l m : Lender}

theorem Lend.agrees (lend : h.Lend h' i k l m) :
    (l.arena.pool l.scratch.pool).Agrees (m.arena.pool m.scratch.pool) := by
  rw [lend.pool, lend.pool']
  exact lend.arenas.pools i

theorem Lend.borrowRefusal? (lend : h.Lend h' i k l m) : m.borrowRefusal? = l.borrowRefusal? := by
  rw [Lender.borrowRefusal?, Lender.borrowRefusal?, lend.agrees.maxConcurrent, lend.agrees.inFlight,
    lend.scratch]

theorem Lend.returnRefusal? (lend : h.Lend h' i k l m) (size : Nat) :
    m.returnRefusal? size = l.returnRefusal? size := by
  rw [Lender.returnRefusal?, Lender.returnRefusal?, lend.agrees.size, lend.scratch]

theorem Lend.own (lend : h.Lend h' i k l m) (twins : h.Twins h') (j : ι) :
    h.pool j = l.scratch.pool ↔ h'.pool j = m.scratch.pool := by
  rw [lend.pool, lend.pool']
  exact twins.pools j i

theorem Lend.lent (lend : h.Lend h' i k l m) (twins : h.Twins h')
    (free : l.borrowRefusal? = none) : h.Lend h' i k l.lent m.lent where
  pool := lend.pool
  pool' := lend.pool'
  context := lend.context
  context' := lend.context'
  scratch := by
    have same := lend.scratch
    rw [Lender.lent, Lender.lent, same]
  arenas := by
    have free' := lend.borrowRefusal?.trans free
    apply lend.arenas.recount (Lender.recounts_lent l) (Lender.recounts_lent m)
    · intro j
      rw [Lender.inFlight_lent free, Lender.inFlight_lent free', (lend.arenas.pools j).inFlight]
      simp only [lend.own twins j]
    · exact lend.arenas.busy

theorem Lend.returned (lend : h.Lend h' i k l m) (twins : h.Twins h') :
    h.Lend h' i k l.returned m.returned where
  pool := lend.pool
  pool' := lend.pool'
  context := lend.context
  context' := lend.context'
  scratch := by
    have same := lend.scratch
    rw [Lender.returned, Lender.returned, same]
  arenas := by
    apply lend.arenas.recount (Lender.recounts_returned l) (Lender.recounts_returned m)
    · intro j
      rw [Lender.inFlight_returned, Lender.inFlight_returned, (lend.arenas.pools j).inFlight]
      simp only [lend.own twins j]
    · exact lend.arenas.busy

theorem Lend.closed (lend : h.Lend h' i k l m) (twins : h.Twins h') :
    h.Alike h' l.closed.arena m.closed.arena := by
  have outstanding : m.scratch.outstanding = l.scratch.outstanding := by rw [lend.scratch]
  apply lend.arenas.recount (Lender.recounts_closed l) (Lender.recounts_closed m)
  · intro j
    rw [Lender.inFlight_closed, Lender.inFlight_closed, (lend.arenas.pools j).inFlight, outstanding]
    simp only [lend.own twins j]
  · intro j
    rw [Lender.busy_closed, Lender.busy_closed, lend.arenas.busy, lend.context, lend.context']
    simp only [twins.contexts j k]

theorem Lend.restock (lend : h.Lend h' i k l m) {a b : Arena} (moves : l.arena.Restocks a)
    (moves' : m.arena.Restocks b) : h.Lend h' i k ⟨l.scratch, a⟩ ⟨m.scratch, b⟩ :=
  { lend with arenas := lend.arenas.restock moves moves' }

/-- Both lenders are refused a set, or both get an empty one, wherever it was kept. -/
theorem Lend.borrow (lend : h.Lend h' i k l m) (twins : h.Twins h') : ∃ answer l' m',
    (ExceptT.run Lending.borrow).run l = (answer, l') ∧
      (ExceptT.run Lending.borrow).run m = (answer, m') ∧ h.Lend h' i k l' m' := by
  -- The counters agree, so that no side is refused alone.
  have same := lend.borrowRefusal?
  rcases Lending.borrow_cases l with ⟨e, known, ran⟩ | ⟨answer, a, ran, free, moves, _, taken⟩
  · rcases Lending.borrow_cases m with ⟨e', known', ran'⟩ | ⟨_, _, _, free', _⟩
    · obtain rfl := Option.some.inj (known.symm.trans (same.symm.trans known'))
      exact ⟨_, l, m, ran, ran', lend⟩
    · exact absurd (free'.symm.trans (same.trans known)) nofun
  · rcases Lending.borrow_cases m with ⟨_, known', _⟩ | ⟨answer', b, ran', _, moves', _, taken'⟩
    · exact absurd (free.symm.trans (same.symm.trans known')) nofun
    · have small : (l.arena.pool l.scratch.pool).size + 63 < sizeLimit := by
        rw [lend.pool]
        exact lend.arenas.small i
      rw [(taken (lend.arenas.stocked.pools _)).eq small] at ran
      rw [(taken' (lend.arenas.stocked'.pools _)).eq (lend.agrees.size ▸ small),
        ← lend.agrees.size] at ran'
      exact ⟨_, _, _, ran, ran', (lend.lent twins free).restock moves moves'⟩

theorem Lend.giveBack (lend : h.Lend h' i k l m) (twins : h.Twins h') (set : ArraySet) :
    ∃ answer l' m', (ExceptT.run (Lending.giveBack set)).run l = (answer, l') ∧
      (ExceptT.run (Lending.giveBack set)).run m = (answer, m') ∧ h.Lend h' i k l' m' := by
  have same := lend.returnRefusal? set.size
  rcases Lending.giveBack_cases l set with ⟨e, known, ran⟩ | ⟨a, ran, free, moves⟩
  · rcases Lending.giveBack_cases m set with ⟨e', known', ran'⟩ | ⟨_, _, free', _⟩
    · obtain rfl := Option.some.inj (known.symm.trans (same.symm.trans known'))
      exact ⟨_, l, m, ran, ran', lend⟩
    · exact absurd (free'.symm.trans (same.trans known)) nofun
  · rcases Lending.giveBack_cases m set with ⟨_, known', _⟩ | ⟨b, ran', _, moves'⟩
    · exact absurd (free.symm.trans (same.symm.trans known')) nofun
    · exact ⟨_, _, _, ran, ran', (lend.returned twins).restock moves moves'⟩

end Handles

structure Run.Twins (h h' : Handles ι κ) (i : ι) (k : κ) (s t : Run ρ) : Prop where
  lend : h.Lend h' i k ⟨s.scratch, s.engine.arena⟩ ⟨t.scratch, t.engine.arena⟩
  pager : s.pager = t.pager
  own : s.own = t.own

/-- Two processors do the same wherever the processes agree, and leave them agreeing. -/
def Processor.Twins (h h' : Handles ι κ) (p q : Processor ρ) : Prop :=
  ∀ document payload e f own, h.Alike h' e.arena f.arena → ∃ more e' f' own',
    p document payload (e, own) = (more, e', own') ∧
      q document payload (f, own) = (more, f', own') ∧ h.Alike h' e'.arena f'.arena

open Running in
theorem lockstep_twins {h h' : Handles ι κ} {p q : Processor ρ} (twins : h.Twins h')
    (same : Processor.Twins h h' p q) (i : ι) (k : κ) :
    Lockstep (fun _ => Run.Twins (ρ := ρ) h h' i k) p q where
  pager alike := alike.pager
  turn _ alike := ⟨alike.lend, rfl, alike.own⟩
  borrow n := by
    rintro s t ⟨lend, pager, own⟩
    obtain ⟨answer, l, m, ran, ran', lend⟩ := lend.borrow twins
    exact ⟨answer, _, _, n + 1, run_lend ran, run_lend ran', ⟨lend, pager, own⟩, fun _ _ => rfl⟩
  giveBack n set := by
    rintro s t ⟨lend, pager, own⟩
    obtain ⟨answer, l, m, ran, ran', lend⟩ := lend.giveBack twins set
    exact ⟨answer, _, _, n, run_lend ran, run_lend ran', ⟨lend, pager, own⟩, fun _ _ => rfl⟩
  process n document payload := by
    rintro s t ⟨lend, pager, own⟩
    obtain ⟨more, e, f, own', called, called', alike⟩ :=
      same document payload s.engine t.engine s.own lend.arenas
    rw [own] at called'
    have ran := run_process called
    have ran' := run_process called'
    exact ⟨_, _, _, n, ran, ran', ⟨{ lend with arenas := alike }, pager, rfl⟩, fun _ _ => rfl⟩

namespace Database

variable {h h' : Handles ι κ} {e f : Engine} {own : ρ} {p q : Processor ρ} {i : ι} {k : κ}

theorem twins_opened (twins : h.Twins h') (alike : h.Alike h' e.arena f.arena) (i : ι) (k : κ)
    (pager : Pager) (own : ρ) :
    Run.Twins h h' i k ((h.databases i).opened (h.contexts k) pager e own)
      ((h'.databases i).opened (h'.contexts k) pager f own) where
  pager := rfl
  own := rfl
  lend := by
    constructor
    · rfl
    · rfl
    · rfl
    · rfl
    · simp only [opened, twins.sets i]
    · apply alike.recount (Arena.recounts_modifyContext _ _ true)
        (Arena.recounts_modifyContext _ _ true)
      · intro j
        exact (alike.pools j).inFlight
      · intro j
        simp only [Arena.context_modifyContext, twins.contexts j k]
        split
        · rfl
        · exact alike.busy j

theorem close_alike (twins : h.Twins h') {s t : Run ρ} (alike : Run.Twins h h' i k s t) :
    h.Alike h' s.close.arena t.close.arena := by
  have scratch : t.scratch =
    { s.scratch with pool := t.scratch.pool, context := t.scratch.context } := alike.lend.scratch
  have released : t.scratch.released = s.scratch.released := by rw [scratch]
  rw [Run.close, Run.close, Scratch.drop, Scratch.drop, released]
  split
  · exact alike.lend.arenas
  · exact alike.lend.closed twins

/-- Where two processes agree, a query answers the same in both, and leaves them agreeing. -/
theorem run_alike (twins : h.Twins h') (alike : h.Alike h' e.arena f.arena)
    {p? q? : Option (Processor ρ)} {query : Query} (paired : Paired (fun _ => Run.Twins (ρ := ρ) h h' i k) 0
      (steps (h.databases i).snapshot.source query p?)
      (steps (h'.databases i).snapshot.source query q?) fun _ => 0)
    (pager : Pager) (own : ρ) : ∃ result pager' e' f' own',
    (h.databases i).run (h.contexts k) query p? pager e own = (result, pager', e', own') ∧
      (h'.databases i).run (h'.contexts k) query q? pager f own = (result, pager', f', own') ∧
      h.Alike h' e'.arena f'.arena := by
  have same := alike.busy k
  cases busy : (e.arena.context (h.contexts k)).busy with
  | true =>
    rw [busy] at same
    exact ⟨_, _, _, _, _, run_busy busy p?, run_busy same.symm q?, alike⟩
  | false =>
    rw [busy] at same
    obtain ⟨result, s, t, n, ran, ran', after, _⟩ :=
      paired _ _ (twins_opened twins alike i k pager own)
    have there := run_idle same.symm ran'
    rw [← after.pager, ← after.own] at there
    refine ⟨_, _, _, _, _, run_idle busy ran, there, ?_⟩
    rw [arena_reported, arena_reported]
    exact close_alike twins after

theorem run_twins (twins : h.Twins h') (alike : h.Alike h' e.arena f.arena)
    (same : Processor.Twins h h' p q) (i : ι) (k : κ) (query : Query) (pager : Pager) (own : ρ) :
    ∃ result pager' e' f' own',
      (h.databases i).run (h.contexts k) query (some p) pager e own =
          (result, pager', e', own') ∧
        (h'.databases i).run (h'.contexts k) query (some q) pager f own =
          (result, pager', f', own') ∧
        h.Alike h' e'.arena f'.arena := by
  apply run_alike twins alike
  rw [← twins.snapshot i]
  exact (lockstep_twins twins same i k).steps query

theorem count_twins (twins : h.Twins h') (alike : h.Alike h' e.arena f.arena) (i : ι) (k : κ)
    (query : Query) : ∃ result e' f',
      (h.databases i).count (h.contexts k) query e = (result, e') ∧
        (h'.databases i).count (h'.contexts k) query f = (result, f') ∧
        h.Alike h' e'.arena f'.arena := by
  have idle : Processor.Twins (ρ := Unit) h h' (fun _ _ => pure true) fun _ _ => pure true :=
    fun _ _ e f own alike => ⟨true, e, f, own, rfl, rfl, alike⟩
  have paired : Paired (fun _ => Run.Twins (ρ := Unit) h h' i k) 0
      (steps (h.databases i).snapshot.source query none)
      (steps (h'.databases i).snapshot.source query none) fun _ => 0 := by
    rw [← twins.snapshot i]
    exact (lockstep_twins twins idle i k).selecting query
  obtain ⟨result, pager, e', f', own, ran, ran', after⟩ :=
    run_alike twins alike paired (.start 0 none) ()
  refine ⟨result.map (·.matched), e', f', ?_, ?_, after⟩
  · rw [count, ran]
  · rw [count, ran']

end Database

/-- A script that does not look at the engine does the same in two processes that agree. -/
theorem Script.perform_twins {h h' : Handles ι κ} (twins : h.Twins h') {script : Script ι κ ρ}
    (blind : script.Blind) {e f : Engine} (alike : h.Alike h' e.arena f.arena) :
    ∃ more e' f' own, script.perform h.databases h.contexts e = (more, e', own) ∧
      script.perform h'.databases h'.contexts f = (more, f', own) ∧
      h.Alike h' e'.arena f'.arena := by
  induction script generalizing e f with
  | answer more own => exact ⟨more, e, f, own, rfl, rfl, alike⟩
  | touch change still next ih =>
    obtain ⟨same, blind⟩ := blind
    rw [perform, perform, same (change f) (change e)]
    apply ih _ (blind _)
    rwa [still, still]
  | query database context query pager own processor next inner ih =>
    have paired : Processor.Twins h h' (Script.processor h.databases h.contexts processor)
        (Script.processor h'.databases h'.contexts processor) :=
      fun document payload e f own alike =>
        inner document payload own (blind.1 document payload own) alike
    obtain ⟨result, pager', e', f', own', ran, ran', after⟩ :=
      Database.run_twins twins alike paired database context query pager own
    rw [perform_query ran, perform_query ran']
    exact ih result pager' own' (blind.2 result pager' own') after
  | count database context query next ih =>
    obtain ⟨result, e', f', ran, ran', after⟩ :=
      Database.count_twins twins alike database context query
    rw [perform_count ran, perform_count ran']
    exact ih result (blind result) after

theorem Script.processor_twins {h h' : Handles ι κ} (twins : h.Twins h')
    {script : Nat → View → ρ → Script ι κ ρ}
    (blind : ∀ document payload own, (script document payload own).Blind) :
    Processor.Twins h h' (processor h.databases h.contexts script)
      (processor h'.databases h'.contexts script) :=
  fun document payload _ _ own alike => perform_twins twins (blind document payload own) alike

end DocStore
