import DocStore.Proofs.Query.Effects

/-! What a query tells the registry of its database: the documents that it handed out and the sets
that it was lent, if it ends well, and else the refusal of a quota. -/
namespace DocStore

variable {ρ α β : Type}

def Metrics.gauge (m : Metrics) : Mark → UInt64
  | .borrowed => m.setsBorrowed
  | .refused => m.poolExhaustions
  | .handed => m.documentsReturned

/-- A call of a database, when it has ended. -/
structure Call where
  /-- Where the database is counted. -/
  registry : Registry
  /-- Whether the call ended well. -/
  well : Bool
  /-- What happened in the call, but for calls that its processor made. -/
  marks : List Mark
deriving DecidableEq, Repr

namespace Call

def reports (c : Call) (mark : Mark) : Bool := c.well || mark = .refused

def total (calls : List Call) (mark : Mark) : Nat := (calls.flatMap (·.marks)).count mark

/-- How often a registry is told of things of a kind. -/
def told (registry : Registry) (calls : List Call) (mark : Mark) : Nat :=
  total (calls.filter fun c => c.registry = registry ∧ c.reports mark) mark

theorem told_append (registry : Registry) (calls others : List Call) (mark : Mark) :
    told registry (calls ++ others) mark = told registry calls mark + told registry others mark := by
  rw [told, List.filter_append, total, List.flatMap_append, List.count_append]
  rfl

theorem told_singleton (registry other : Registry) (well : Bool) (marks : List Mark) (mark : Mark) :
    told registry [⟨other, well, marks⟩] mark =
      if other = registry ∧ (well = true ∨ mark = .refused) then marks.count mark else 0 := by
  have reports : (⟨other, well, marks⟩ : Call).reports mark = true ↔
      well = true ∨ mark = .refused := by
    rw [Call.reports, Bool.or_eq_true, decide_eq_true_iff]
  rw [told, total]
  by_cases tells : other = registry ∧ (well = true ∨ mark = .refused)
  · rw [if_pos tells, List.filter_cons_of_pos (by simpa [reports] using tells), List.filter_nil,
      List.flatMap_singleton]
  · rw [if_neg tells, List.filter_cons_of_neg (by simpa [reports] using tells), List.filter_nil]
    rfl

end Call

namespace Engine

theorem metrics_modifyMetrics (e : Engine) (registry other : Registry) (f : Metrics → Metrics) :
    (e.modifyMetrics registry f).metrics other =
      if other = registry then f (e.metrics registry) else e.metrics other := by
  simp only [metrics, modifyMetrics, Assoc.get?_put]
  split <;> simp

def Tells (e : Engine) (registry : Registry) (e' : Engine) (calls : List Call) : Prop :=
  ∀ mark, (e'.metrics registry).gauge mark =
    (e.metrics registry).gauge mark + UInt64.ofNat (Call.told registry calls mark)

variable {e e' f : Engine} {registry : Registry} {calls others : List Call}

theorem tells_nothing (same : e'.metrics registry = e.metrics registry) :
    e.Tells registry e' [] := by
  intro mark
  rw [same]
  exact (UInt64.add_zero _).symm

theorem Tells.trans (first : e.Tells registry e' calls) (second : e'.Tells registry f others) :
    e.Tells registry f (calls ++ others) := by
  intro mark
  rw [second mark, first mark, Call.told_append, UInt64.ofNat_add, UInt64.add_assoc]

end Engine

def Effect.calls (inner : Nat → View → Engine → ρ → List Call) : Effect ρ → List Call
  | handed document payload engine own => inner document payload engine own
  | borrowed | refused => []

theorem Effect.calls_of_silent {effect : Effect ρ} {inner : Nat → View → Engine → ρ → List Call}
    (silent : effect.call? = none) : effect.calls inner = [] := by
  cases effect with
  | borrowed => rfl
  | refused => rfl
  | handed => contradiction

section Following

variable {p : Processor ρ} {s s' t : Run ρ} {base : Arena} {size : Nat} {registry : Registry}
  {inner : Nat → View → Engine → ρ → List Call}

/-- Whatever a processor does, a registry is told of the calls that it makes. -/
def Processor.Tells (p : Processor ρ) (base : Arena) (registry : Registry)
    (inner : Nat → View → Engine → ρ → List Call) : Prop :=
  ∀ document payload (e : Engine) own, base.Keeps e.arena →
    e.Tells registry (p document payload (e, own)).2.1 (inner document payload e own)

namespace Running

theorem borrow_quiet {answer : Except (Failure PoolError) ArraySet} (lends : s.Lends size)
    (small : size + 63 < sizeLimit) (ran : (ExceptT.run borrow).run s = (answer, s')) :
    s.Quiet s' := by
  refine Meets.of_run ((borrow_meets lends small).mono ?_ fun _ _ => id) ran
  intro _ _ met
  exact met.2.1

theorem giveBack_quiet {answer : Except (Failure PoolError) Unit} {set : ArraySet}
    (ran : (ExceptT.run (giveBack set)).run s = (answer, s')) : s.Quiet s' := by
  by_cases out : 0 < s.scratch.outstanding
  · refine Meets.of_run ((giveBack_meets out).mono ?_ fun _ _ => id) ran
    intro _ _ met
    exact met.1
  · rcases Lending.giveBack_cases ⟨s.scratch, s.engine.arena⟩ set with
      ⟨error, _, takes⟩ | ⟨_, _, free, _⟩
    · cases ran.symm.trans (run_lend takes)
      exact Run.Quiet.refl s
    · exact absurd (Nat.pos_of_ne_zero (Lender.returnRefusal?_eq_none.mp free).2.2) out

end Running

theorem Run.Quiet.tells (quiet : s.Quiet s') : s.engine.Tells registry s'.engine [] := by
  apply Engine.tells_nothing
  rw [quiet.engine]
  rfl

/-- In one step only a processor tells a registry of calls. -/
theorem Ask.run_tells {step : Ask β} {answer : Except (Failure PoolError) β}
    (small : size + 63 < sizeLimit) (tame : p.Tame base) (tells : p.Tells base registry inner)
    (stands : s.Stands base size) (ran : (ExceptT.run (step.run p)).run s = (answer, s')) :
    s'.Stands base size ∧ s.engine.Tells registry s'.engine
      ((step.effect? s answer).toList.flatMap (·.calls inner)) := by
  cases step with
  | borrow =>
    have quiet := Running.borrow_quiet stands.lends small ran
    have silent : (effect? s .borrow answer).toList.flatMap (·.calls inner) = [] :=
      List.flatMap_eq_nil_iff.mpr fun effect inside => Effect.calls_of_silent (silent_borrow _ inside)
    rw [silent]
    exact ⟨quiet.stands stands, quiet.tells⟩
  | giveBack set =>
    have quiet := Running.giveBack_quiet ran
    exact ⟨quiet.stands stands, quiet.tells⟩
  | offer =>
    cases ran
    exact ⟨⟨stands.since, stands.lends⟩, Engine.tells_nothing rfl⟩
  | isDone =>
    cases ran
    exact ⟨stands, Engine.tells_nothing rfl⟩
  | process document payload =>
    have keeps := tame document payload s.engine s.own stands.since
    have told := tells document payload s.engine s.own stands.since
    cases called : p document payload (s.engine, s.own) with
    | mk more after =>
      obtain ⟨engine, own⟩ := after
      cases ran.symm.trans (Running.run_process called)
      rw [called] at keeps told
      refine ⟨⟨stands.since.trans keeps, keeps _ _ stands.lends⟩, ?_⟩
      rw [effect?, Option.toList_some, List.flatMap_singleton]
      exact told

theorem Plan.Follows.tells {plan : Plan α} {effects : List (Effect ρ)}
    {answer : Except (Failure PoolError) α} (small : size + 63 < sizeLimit) (tame : p.Tame base)
    (tells : p.Tells base registry inner) (follows : Follows p plan s effects answer t)
    (stands : s.Stands base size) :
    s.engine.Tells registry t.engine (effects.flatMap (·.calls inner)) := by
  induction follows with
  | done => exact Engine.tells_nothing rfl
  | broken => exact Engine.tells_nothing rfl
  | failed ran => exact (Ask.run_tells small tame tells stands ran).2
  | asked ran _ ih =>
    obtain ⟨after, first⟩ := Ask.run_tells small tame tells stands ran
    rw [List.flatMap_append]
    exact first.trans (ih after)

end Following

theorem Processor.Tame.traced {p : Processor ρ} {base : Arena} (tame : p.Tame base) :
    p.traced.Tame base := by
  rintro document payload e ⟨own, seen⟩ since
  exact tame document payload e own since

theorem Processor.seen_traced (p : Processor ρ) (document : Nat) (payload : View)
    (state : Engine × ρ × List (Nat × View)) :
    (p.traced document payload state).2.2.2 = state.2.2 ++ [(document, payload)] := rfl

/-- A processor that keeps what it is handed has kept all of its calls. -/
theorem Calls.seen {p : Processor ρ} {start last : Engine × ρ × List (Nat × View)}
    {calls : List (Nat × View)} {willing : Bool} (made : Calls p.traced start calls willing last) :
    last.2.2 = start.2.2 ++ calls := by
  induction made with
  | none => exact (List.append_nil _).symm
  | @more e own arena document payload _ _ _ _ _ called _ ih =>
    have kept := p.seen_traced document payload ({ e with arena }, own)
    rw [called] at kept
    rw [ih, kept, List.append_assoc]
    rfl
  | @stop e _ own _ arena _ document payload _ called _ =>
    have kept := p.seen_traced document payload ({ e with arena }, own)
    rw [called] at kept
    exact kept

def Processor.idle : Processor ρ := fun _ _ => pure true

namespace Database

variable {db : Database} {e : Engine} {q : Query} {p? : Option (Processor ρ)} {s : Run ρ}
  {base : Arena} {registry : Registry} {inner : Nat → View → Engine → ρ → List Call}

def effects (db : Database) (context : String) (q : Query) (p? : Option (Processor ρ))
    (pager : Pager) (e : Engine) (own : ρ) : List (Effect ρ) :=
  match Run.start e context db.pool db.setsPerQuery pager own with
  | .error _ => []
  | .ok run => (Plan.query db.snapshot.source q p?.isSome).effects (p?.getD .idle) run

theorem run_plan (source : Source) (q : Query) (p? : Option (Processor ρ)) :
    (Plan.query source q p?.isSome).run (p?.getD .idle) = steps source q p? := by
  cases p? with
  | none => exact Plan.run_query_selecting q
  | some p => exact Plan.run_query q

theorem tame_idle (base : Arena) : (Processor.idle (ρ := ρ)).Tame base :=
  fun _ _ e _ _ => Arena.Keeps.refl e.arena

/-- A query that ends well has taken as many documents for its page as it has handed out. -/
theorem emitted_of_steps (usable : db.snapshot.Usable) (tame : (p?.getD .idle).Tame base)
    (stands : s.Stands base db.documents) {outcome : Outcome} {t : Run ρ}
    {effects : List (Effect ρ)}
    (follows : Plan.Follows (p?.getD .idle) (Plan.query db.snapshot.source q p?.isSome) s effects
      (.ok outcome) t) :
    t.pager.emitted = s.pager.emitted + Effect.count .handed effects := by
  obtain ⟨passes, answers⟩ := usable.answers
  have traced := follows.traced []
  have stands : (s.traced []).Stands base db.documents := ⟨stands.since, stands.lends⟩
  rw [Effect.count_handed]
  cases p? with
  | none =>
    rw [Option.isSome_none, Plan.run_query_selecting] at traced
    obtain ⟨quiet, _⟩ := (steps_counts answers stands.lends).ok_of_run traced
    have nothing : [] ++ effects.filterMap (·.call?) = [] := congrArg Prod.snd quiet.own
    rw [List.nil_append] at nothing
    rw [nothing]
    exact congrArg Pager.emitted quiet.pager
  | some p =>
    rw [Option.isSome_some, Plan.run_query] at traced
    obtain ⟨selection, _, _, emits⟩ :=
      (steps_delivers answers usable.sound (Processor.Tame.traced tame) stands).ok_of_run traced
    obtain ⟨calls, willing, made, _, pages⟩ := emits.calls
    have all : [] ++ effects.filterMap (·.call?) = [] ++ calls := made.seen
    rw [List.nil_append, List.nil_append] at all
    rw [all]
    exact pages.emitted.trans (congrArg _ (List.length_map _))

theorem metrics_reportExecuted (matched returned borrowed duration : Nat) (e : Engine) :
    (db.reportExecuted matched returned borrowed duration e).metrics registry =
      if registry = db.registry then
        ((e.metrics db.registry).recordQuery.addReturned returned).addBorrowed borrowed
      else e.metrics registry :=
  e.metrics_modifyMetrics db.registry registry fun m =>
    (m.recordQuery.addReturned returned).addBorrowed borrowed

theorem metrics_reportRefusal (error : PoolError) (e : Engine) :
    (db.reportRefusal error e).metrics registry =
      if error.isExhausted ∧ registry = db.registry then (e.metrics db.registry).recordExhaustion
      else e.metrics registry := by
  rw [reportRefusal]
  by_cases exhausted : error.isExhausted = true
  · rw [if_pos exhausted, if_congr (and_iff_right exhausted) rfl rfl]
    exact Engine.metrics_modifyMetrics _ _ _ _
  · rw [if_neg exhausted, if_neg fun both => exhausted both.1]

/-- Of a query that fails only a refusal by a quota is counted. -/
theorem gauge_reported {pager : Pager} (failure : Failure PoolError) (mark : Mark) :
    ((db.reported pager e (.error failure) s).metrics db.registry).gauge mark =
      (s.engine.metrics db.registry).gauge mark +
        UInt64.ofNat (if mark = .refused then failure.exhaustions else 0) := by
  cases failure with
  | refused error =>
    rw [reported, metrics_reportRefusal, Failure.exhaustions]
    by_cases exhausted : error.isExhausted = true
    · rw [if_pos ⟨exhausted, rfl⟩, if_pos exhausted]
      cases mark with
      | borrowed => exact (UInt64.add_zero _).symm
      | refused => rfl
      | handed => exact (UInt64.add_zero _).symm
    · rw [if_neg fun both => exhausted both.1, if_neg exhausted, ite_self]
      exact (UInt64.add_zero _).symm
  | fault cause =>
    rw [Failure.exhaustions, ite_self]
    exact (UInt64.add_zero _).symm

/-- The report of a query tells the registry of its database what happened in it. -/
theorem reported_tells {pager : Pager} {result : Except (Failure PoolError) Outcome}
    {effects : List (Effect ρ)} (refused : Effect.count .refused effects = exhaustions result)
    (well : ∀ outcome, result = .ok outcome →
      s.scratch.borrowed = Effect.count .borrowed effects ∧
        s.pager.emitted = pager.emitted + Effect.count .handed effects) :
    s.engine.Tells registry (db.reported pager e result s)
      [⟨db.registry, result.isOk, effects.map (·.mark)⟩] := by
  intro mark
  rw [Call.told_singleton, ← Effect.count]
  by_cases own : db.registry = registry
  · subst own
    cases result with
    | ok outcome =>
      obtain ⟨borrowed, emitted⟩ := well outcome rfl
      rw [reported, metrics_reportExecuted, if_pos rfl, if_pos ⟨rfl, Or.inl rfl⟩, borrowed, emitted,
        Nat.add_sub_cancel_left]
      cases mark with
      | borrowed => rfl
      | refused =>
        rw [refused]
        exact (UInt64.add_zero _).symm
      | handed => rfl
    | error failure =>
      rw [gauge_reported]
      by_cases refusal : mark = .refused
      · subst refusal
        rw [if_pos rfl, if_pos ⟨rfl, Or.inr rfl⟩, refused]
        rfl
      · rw [if_neg refusal, if_neg]
        rintro ⟨_, ill | same⟩
        · exact Bool.false_ne_true ill
        · exact refusal same
  · rw [if_neg fun both => own both.1]
    have other : registry ≠ db.registry := fun same => own same.symm
    have still : (db.reported pager e result s).metrics registry = s.engine.metrics registry := by
      cases result with
      | ok outcome => exact (metrics_reportExecuted ..).trans (if_neg other)
      | error failure =>
        cases failure with
        | refused error => exact (metrics_reportRefusal ..).trans (if_neg fun both => other both.2)
        | fault cause => rfl
    rw [still]
    exact (UInt64.add_zero _).symm

theorem run_keeps (usable : db.snapshot.Usable) (attached : db.Attached e)
    (tame : (p?.getD .idle).Tame e.arena) (context : String) (q : Query) (pager : Pager) (own : ρ) :
    e.arena.Keeps (db.run context q p? pager e own).2.2.1.arena := by
  obtain ⟨passes, answers⟩ := usable.answers
  cases p? with
  | none => exact (run_counts answers attached rfl).1
  | some p => exact (run_serves answers usable.sound tame attached rfl).1

/-- A query tells a registry of the calls that its processor made, and then of itself. -/
theorem run_tells (usable : db.snapshot.Usable) (attached : db.Attached e)
    (tame : (p?.getD .idle).Tame e.arena) (tells : (p?.getD .idle).Tells e.arena registry inner)
    (context : String) (q : Query) (pager : Pager) (own : ρ) :
    e.Tells registry (db.run context q p? pager e own).2.2.1
      ((db.effects context q p? pager e own).flatMap (·.calls inner) ++
        [⟨db.registry, (db.run context q p? pager e own).1.isOk,
          (db.effects context q p? pager e own).map (·.mark)⟩]) := by
  rw [effects]
  cases busy : (e.arena.context context).busy with
  | true =>
    rw [run_busy busy, start_busy busy]
    intro mark
    rw [List.flatMap_nil, List.nil_append, Call.told_singleton, List.map_nil, List.count_nil, ite_self]
    exact (UInt64.add_zero _).symm
  | false =>
    rw [start_idle busy]
    dsimp only
    cases ran : (ExceptT.run (steps db.snapshot.source q p?)).run
        (db.opened context pager e own) with
    | mk result ended =>
      rw [run_idle busy ran]
      rw [← run_plan] at ran
      have follows := Plan.follows ran
      have stands : (db.opened context pager e own).Stands e.arena db.documents :=
        ⟨Arena.keeps_modifyContext _ _, Arena.keeps_modifyContext _ _ _ _ attached⟩
      have before : e.Tells registry (db.opened context pager e own).engine [] :=
        Engine.tells_nothing rfl
      have during := follows.tells usable.payloads.room tame tells stands
      refine (before.trans during).trans (reported_tells follows.refused ?_)
      rintro outcome rfl
      constructor
      · exact (follows.borrowed rfl).trans (Nat.zero_add _)
      · exact emitted_of_steps usable tame stands follows

/-- A count calls no processor, and so only tells of itself. -/
theorem count_tells (usable : db.snapshot.Usable) (attached : db.Attached e) (context : String)
    (q : Query) :
    e.arena.Keeps (db.count context q e).2.arena ∧
      e.Tells registry (db.count context q e).2 [⟨db.registry, (db.count context q e).1.isOk,
        (db.effects (ρ := Unit) context q none (.start 0 none) e ()).map (·.mark)⟩] := by
  have keeps := @run_keeps Unit db e none usable attached (tame_idle _) context q (.start 0 none) ()
  have told := @run_tells Unit db e none registry (fun _ _ _ _ => []) usable attached
    (tame_idle _) (fun _ _ _ _ _ => Engine.tells_nothing rfl) context q (.start 0 none) ()
  have alone : (db.effects (ρ := Unit) context q none (.start 0 none) e ()).flatMap
      (·.calls fun _ _ _ _ => []) = [] := by
    rw [List.flatMap_eq_nil_iff]
    intro effect _
    cases effect <;> rfl
  rw [alone, List.nil_append] at told
  rw [count]
  cases ran : db.run context q (none : Option (Processor Unit)) (.start 0 none) e () with
  | mk result after =>
    obtain ⟨pager, e', own⟩ := after
    rw [ran] at keeps told
    cases result <;> exact ⟨keeps, told⟩

end Database

end DocStore
