import DocStore.Proofs.Query.Lockstep

/-! Callers that issue queries while one of their queries runs. All that such a caller does with
pools and contexts is to query databases, with processors of its own kind. -/
namespace DocStore

/-- What a caller does when it is handed a document, up to its answer whether to go on. -/
inductive Script (ι κ ρ : Type) where
  /-- Keeps something and answers. -/
  | answer (more : Bool) (own : ρ)
  /-- Changes and looks at the engine, but for the pools and contexts, which it only looks at. -/
  | touch (change : Engine → Engine) (still : ∀ e, (change e).arena = e.arena)
      (next : Engine → Script ι κ ρ)
  /-- Issues a query with a page and a processor. -/
  | query (database : ι) (context : κ) (q : Query) (pager : Pager) (own : ρ)
      (processor : Nat → View → ρ → Script ι κ ρ)
      (next : Except (Failure PoolError) Database.Outcome → Pager → ρ → Script ι κ ρ)
  /-- Counts the documents of a query. -/
  | count (database : ι) (context : κ) (q : Query)
      (next : Except (Failure PoolError) Nat → Script ι κ ρ)

namespace Script

variable {ι κ ρ : Type}

def perform (databases : ι → Database) (contexts : κ → String) :
    Script ι κ ρ → Engine → Bool × Engine × ρ
  | .answer more own, e => (more, e, own)
  | .touch change _ next, e => (next (change e)).perform databases contexts (change e)
  | .query database context q pager own processor next, e =>
    let (result, pager, e, own) := (databases database).run (contexts context) q
      (some fun document payload state =>
        (processor document payload state.2).perform databases contexts state.1) pager e own
    (next result pager own).perform databases contexts e
  | .count database context q next, e =>
    let (result, e) := (databases database).count (contexts context) q e
    (next result).perform databases contexts e

def processor (databases : ι → Database) (contexts : κ → String)
    (script : Nat → View → ρ → Script ι κ ρ) : Processor ρ := fun document payload state =>
  (script document payload state.2).perform databases contexts state.1

section Perform

variable {databases : ι → Database} {contexts : κ → String} {database : ι} {context : κ} {q : Query}
  {pager pager' : Pager} {own own' : ρ} {inner : Nat → View → ρ → Script ι κ ρ} {e e' : Engine}

theorem perform_query {result : Except (Failure PoolError) Database.Outcome}
    {next : Except (Failure PoolError) Database.Outcome → Pager → ρ → Script ι κ ρ}
    (ran : (databases database).run (contexts context) q
      (some (processor databases contexts inner)) pager e own = (result, pager', e', own')) :
    (query database context q pager own inner next).perform databases contexts e =
      (next result pager' own').perform databases contexts e' := by
  unfold processor at ran
  rw [perform, ran]

theorem perform_count {result : Except (Failure PoolError) Nat}
    {next : Except (Failure PoolError) Nat → Script ι κ ρ}
    (ran : (databases database).count (contexts context) q e = (result, e')) :
    (count database context q next).perform databases contexts e =
      (next result).perform databases contexts e' := by
  rw [perform, ran]

end Perform

/-- The script with every query on one context left out, and answered as one that found its
context busy: no document is handed out, and the page is as it was. -/
def refusing (contexts : κ → String) (running : String) : Script ι κ ρ → Script ι κ ρ
  | .answer more own => .answer more own
  | .touch change still next => .touch change still fun e => (next e).refusing contexts running
  | .query database context q pager own processor next =>
    if contexts context = running then
      (next (.error (.refused .contextBusy)) pager own).refusing contexts running
    else
      .query database context q pager own
        (fun document payload own => (processor document payload own).refusing contexts running)
        fun result pager own => (next result pager own).refusing contexts running
  | .count database context q next =>
    if contexts context = running then
      (next (.error (.refused .contextBusy))).refusing contexts running
    else
      .count database context q fun result => (next result).refusing contexts running

/-- What a script does next never depends on what it sees of the engine. -/
def Blind : Script ι κ ρ → Prop
  | .answer _ _ => True
  | .touch _ _ next => (∀ e f, next e = next f) ∧ ∀ e, (next e).Blind
  | .query _ _ _ _ _ processor next =>
    (∀ document payload own, (processor document payload own).Blind) ∧
      ∀ result pager own, (next result pager own).Blind
  | .count _ _ _ next => ∀ result, (next result).Blind

end Script

end DocStore
