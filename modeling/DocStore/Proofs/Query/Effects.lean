import DocStore.Proofs.Database.History
import DocStore.Proofs.Query.Plans

/-! What happens while a query runs: it is lent a set, a quota refuses it one, or it hands out a
document. The lender keeps count of the first, a query ends at the second, and a processor sees
the third. -/
namespace DocStore

variable {ρ α β : Type}

inductive Mark where
  | borrowed
  | refused
  | handed
deriving DecidableEq, Repr

inductive Effect (ρ : Type) where
  /-- A set is lent. -/
  | borrowed
  /-- A quota refuses a set. -/
  | refused
  /-- A processor is called, with the engine and its own state as they are. -/
  | handed (document : Nat) (payload : View) (engine : Engine) (own : ρ)

namespace Effect

def mark : Effect ρ → Mark
  | borrowed => .borrowed
  | refused => .refused
  | handed _ _ _ _ => .handed

def call? : Effect ρ → Option (Nat × View)
  | handed document payload _ _ => some (document, payload)
  | borrowed | refused => none

def count (mark : Mark) (effects : List (Effect ρ)) : Nat := (effects.map (·.mark)).count mark

theorem count_append (mark : Mark) (effects others : List (Effect ρ)) :
    count mark (effects ++ others) = count mark effects + count mark others := by
  rw [count, List.map_append, List.count_append]
  rfl

theorem count_handed (effects : List (Effect ρ)) :
    count .handed effects = (effects.filterMap call?).length := by
  induction effects with
  | nil => rfl
  | cons effect rest ih =>
    rw [← List.singleton_append, count_append, ih, List.filterMap_append, List.length_append]
    cases effect <;> rfl

end Effect

def Ask.effect? (s : Run ρ) : Ask α → Except (Failure PoolError) α → Option (Effect ρ)
  | borrow, .ok _ => some .borrowed
  | borrow, .error (.refused error) => if error.isExhausted then some .refused else none
  | borrow, .error (.fault _) => none
  | giveBack _, _ | offer, _ | isDone, _ => none
  | process document payload, _ => some (.handed document payload s.engine s.own)

namespace Plan

def effects (p : Processor ρ) : Plan α → Run ρ → List (Effect ρ)
  | done _, _ | broken _, _ => []
  | ask step next, s =>
    let (answer, s') := (ExceptT.run (step.run p)).run s
    (step.effect? s answer).toList ++ match answer with
      | .ok b => (next b).effects p s'
      | .error _ => []

/-- A plan is followed from one state to another: step by step, up to the first that fails. -/
inductive Follows (p : Processor ρ) :
    Plan α → Run ρ → List (Effect ρ) → Except (Failure PoolError) α → Run ρ → Prop where
  | done {a : α} {s : Run ρ} : Follows p (.done a) s [] (.ok a) s
  | broken {cause : Fault} {s : Run ρ} : Follows p (.broken cause) s [] (.error (.fault cause)) s
  | failed {β : Type} {step : Ask β} {next : β → Plan α} {s s' : Run ρ}
    {failure : Failure PoolError} (ran : (ExceptT.run (step.run p)).run s = (.error failure, s')) :
    Follows p (.ask step next) s (step.effect? s (.error failure)).toList (.error failure) s'
  | asked {β : Type} {step : Ask β} {next : β → Plan α} {s s' t : Run ρ} {b : β}
    {effects : List (Effect ρ)} {answer : Except (Failure PoolError) α}
    (ran : (ExceptT.run (step.run p)).run s = (.ok b, s'))
    (later : Follows p (next b) s' effects answer t) :
    Follows p (.ask step next) s ((step.effect? s (.ok b)).toList ++ effects) answer t

variable {p : Processor ρ} {plan : Plan α} {s t : Run ρ} {effects : List (Effect ρ)}
  {answer : Except (Failure PoolError) α}

theorem follows (ran : (ExceptT.run (plan.run p)).run s = (answer, t)) :
    Follows p plan s (plan.effects p s) answer t := by
  induction plan generalizing s with
  | done a =>
    cases ran
    exact .done
  | broken cause =>
    cases ran
    exact .broken
  | ask step next ih =>
    rw [run, Meets.run_bind] at ran
    cases asked : (ExceptT.run (step.run p)).run s with
    | mk result s' =>
      rw [asked] at ran
      cases result with
      | error failure =>
        cases ran
        simp only [Plan.effects, asked, List.append_nil]
        exact .failed asked
      | ok b =>
        simp only [Plan.effects, asked]
        exact .asked asked (ih b ran)

end Plan

/-- Being lent a set is no call, whether it succeeds or not. -/
theorem Ask.silent_borrow {s : Run ρ} {answer : Except (Failure PoolError) ArraySet} :
    ∀ effect ∈ (effect? s .borrow answer).toList, effect.call? = none := by
  intro effect inside
  rcases answer with (error | cause) | set
  · rw [effect?] at inside
    split at inside
    · exact List.mem_singleton.mp inside ▸ rfl
    · exact absurd inside List.not_mem_nil
  · exact absurd inside List.not_mem_nil
  · exact List.mem_singleton.mp inside ▸ rfl

/-- How often a quota has refused a set, when a computation fails so. -/
def Failure.exhaustions : Failure PoolError → Nat
  | refused error => if error.isExhausted then 1 else 0
  | fault _ => 0

def exhaustions : Except (Failure PoolError) α → Nat
  | .error failure => failure.exhaustions
  | .ok _ => 0

theorem Lender.isExhausted_of_returnRefusal? {l : Lender} {size : Nat} {error : PoolError}
    (known : l.returnRefusal? size = some error) : error.isExhausted = false := by
  unfold returnRefusal? at known
  split at known
  · cases known
    rfl
  · split at known
    · cases known
      rfl
    · split at known
      · cases known
        rfl
      · contradiction

namespace Ask

open Running Effect

variable {p : Processor ρ} {step : Ask β} {s s' : Run ρ} {answer : Except (Failure PoolError) β}

/-- What one step adds to the count of the lender, and how it is refused. -/
theorem run_counts (ran : (ExceptT.run (step.run p)).run s = (answer, s')) :
    count .refused (step.effect? s answer).toList = exhaustions answer ∧
      ∀ b, answer = .ok b → s'.scratch.borrowed =
        s.scratch.borrowed + count .borrowed (step.effect? s answer).toList := by
  cases step with
  | borrow =>
    rcases Lending.borrow_cases ⟨s.scratch, s.engine.arena⟩ with
      ⟨error, known, lends⟩ | ⟨_, arena, lends, _, _, never, _⟩
    · cases ran.symm.trans (run_lend lends)
      refine ⟨?_, nofun⟩
      rw [effect?, exhaustions, Failure.exhaustions]
      split <;> rfl
    · cases ran.symm.trans (run_lend lends)
      cases answer with
      | ok set => exact ⟨rfl, fun _ _ => rfl⟩
      | error failure =>
        cases failure with
        | refused error => exact absurd rfl (never error)
        | fault cause => exact ⟨rfl, nofun⟩
  | giveBack set =>
    rcases Lending.giveBack_cases ⟨s.scratch, s.engine.arena⟩ set with
      ⟨error, known, takes⟩ | ⟨arena, takes, _⟩
    · cases ran.symm.trans (run_lend takes)
      refine ⟨?_, nofun⟩
      rw [exhaustions, Failure.exhaustions, Lender.isExhausted_of_returnRefusal? known]
      rfl
    · cases ran.symm.trans (run_lend takes)
      exact ⟨rfl, fun _ _ => rfl⟩
  | offer =>
    cases ran
    exact ⟨rfl, fun _ _ => rfl⟩
  | isDone =>
    cases ran
    exact ⟨rfl, fun _ _ => rfl⟩
  | process document payload =>
    cases called : p document payload (s.engine, s.own) with
    | mk more after =>
      obtain ⟨engine, own⟩ := after
      cases ran.symm.trans (run_process called)
      exact ⟨rfl, fun _ _ => rfl⟩

end Ask

def Run.traced (s : Run ρ) (seen : List (Nat × View)) : Run (ρ × List (Nat × View)) where
  scratch := s.scratch
  engine := s.engine
  pager := s.pager
  own := (s.own, seen)

open Running in
theorem Ask.run_traced {p : Processor ρ} {step : Ask β} {s s' : Run ρ}
    {answer : Except (Failure PoolError) β}
    (ran : (ExceptT.run (step.run p)).run s = (answer, s')) (seen : List (Nat × View)) :
    (ExceptT.run (step.run p.traced)).run (s.traced seen) =
      (answer, s'.traced (seen ++ (step.effect? s answer).toList.filterMap (·.call?))) := by
  cases step with
  | borrow =>
    cases lends : (ExceptT.run Lending.borrow).run ⟨s.scratch, s.engine.arena⟩ with
    | mk _ l =>
      cases ran.symm.trans (run_lend lends)
      rw [List.filterMap_eq_nil_iff.mpr silent_borrow, List.append_nil]
      exact run_lend (s := s.traced seen) lends
  | giveBack set =>
    cases takes : (ExceptT.run (Lending.giveBack set)).run ⟨s.scratch, s.engine.arena⟩ with
    | mk _ l =>
      cases ran.symm.trans (run_lend takes)
      rw [effect?, Option.toList_none, List.filterMap_nil, List.append_nil]
      exact run_lend (s := s.traced seen) takes
  | offer =>
    cases ran
    rw [effect?, Option.toList_none, List.filterMap_nil, List.append_nil]
    rfl
  | isDone =>
    cases ran
    rw [effect?, Option.toList_none, List.filterMap_nil, List.append_nil]
    rfl
  | process document payload =>
    cases called : p document payload (s.engine, s.own) with
    | mk more after =>
      obtain ⟨engine, own⟩ := after
      cases ran.symm.trans (run_process called)
      have kept : p.traced document payload (s.engine, s.own, seen) =
          (more, engine, own, seen ++ [(document, payload)]) := by
        rw [Processor.traced, called]
      exact run_process (s := s.traced seen) kept

namespace Plan.Follows

variable {p : Processor ρ} {plan : Plan α} {s t : Run ρ} {effects : List (Effect ρ)}
  {answer : Except (Failure PoolError) α}

/-- The lender of a query that ends well knows how many sets it lent. -/
theorem borrowed (follows : Follows p plan s effects answer t) {a : α} (well : answer = .ok a) :
    t.scratch.borrowed = s.scratch.borrowed + Effect.count .borrowed effects := by
  induction follows with
  | done => rfl
  | broken => contradiction
  | failed => contradiction
  | asked ran _ ih => rw [ih well, (Ask.run_counts ran).2 _ rfl, Effect.count_append, Nat.add_assoc]

/-- A quota refuses a set at most once, and then the query ends with its error. -/
theorem refused (follows : Follows p plan s effects answer t) :
    Effect.count .refused effects = exhaustions answer := by
  induction follows with
  | done => rfl
  | broken => rfl
  | failed ran => exact (Ask.run_counts ran).1
  | asked ran _ ih => rw [Effect.count_append, (Ask.run_counts ran).1, ih, exhaustions, Nat.zero_add]

/-- A processor that keeps what it is handed ends up with the documents that are handed out. -/
theorem traced (follows : Follows p plan s effects answer t) (seen : List (Nat × View)) :
    (ExceptT.run (plan.run p.traced)).run (s.traced seen) =
      (answer, t.traced (seen ++ effects.filterMap (·.call?))) := by
  induction follows generalizing seen with
  | done =>
    rw [List.filterMap_nil, List.append_nil]
    rfl
  | broken =>
    rw [List.filterMap_nil, List.append_nil]
    rfl
  | failed ran => rw [Plan.run, Meets.run_bind, Ask.run_traced ran]
  | asked ran _ ih =>
    rw [Plan.run, Meets.run_bind, Ask.run_traced ran]
    simp only [ih, List.filterMap_append, List.append_assoc]

end Plan.Follows

end DocStore
