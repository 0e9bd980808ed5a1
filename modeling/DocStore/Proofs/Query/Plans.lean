import DocStore.Database.Execution
import DocStore.Proofs.Outcomes

/-! The steps of a query one by one. A plan says what a query asks of its lender, its page and its
processor, and how it goes on after each answer. Following the plan is running the query, and what
happens on the way can be written down. -/
namespace DocStore

variable {ρ α β : Type}

theorem Pager.emitted_offer (p : Pager) : p.emitted ≤ p.offer.2.emitted := by
  obtain ⟨_ | skip, _ | _ | left, emitted⟩ := p
  all_goals first | exact Nat.le_refl _ | exact Nat.le_succ _

inductive Ask : Type → Type where
  | borrow : Ask ArraySet
  | giveBack (set : ArraySet) : Ask Unit
  | offer : Ask Admission
  | isDone : Ask Bool
  | process (document : Nat) (payload : View) : Ask Bool

def Ask.run (p : Processor ρ) : Ask α → Running ρ α
  | borrow => Running.borrow
  | giveBack set => Running.giveBack set
  | offer => Running.offer
  | isDone => Running.isDone
  | process document payload => Running.process p document payload

/-- A computation that asks one thing after the other. -/
inductive Plan (α : Type) where
  | done (a : α)
  | broken (cause : Fault)
  | ask {β : Type} (step : Ask β) (next : β → Plan α)

namespace Plan

def bind : Plan α → (α → Plan β) → Plan β
  | done a, f => f a
  | broken cause, _ => broken cause
  | ask step next, f => ask step fun b => (next b).bind f

instance : Monad Plan where
  pure := done
  bind := bind

instance : MonadLift (Except Fault) Plan where
  monadLift
    | .ok a => done a
    | .error cause => broken cause

instance : MonadLift Ask Plan where
  monadLift step := ask step done

def run (p : Processor ρ) : Plan α → Running ρ α
  | done a => pure a
  | broken cause => throw (.fault cause)
  | ask step next => step.run p >>= fun b => (next b).run p

section Following

variable {p : Processor ρ} {x : Plan α} {f : α → Plan β}

@[simp] theorem run_pure (a : α) : run p (Pure.pure a : Plan α) = Pure.pure a := rfl

@[simp] theorem run_lift (read : Except Fault α) :
    run p (liftM read : Plan α) = (liftM read : Running ρ α) := by
  cases read <;> rfl

@[simp] theorem run_bind : run p (x >>= f) = run p x >>= fun a => run p (f a) := by
  induction x with
  | done a => rfl
  | broken cause => rfl
  | ask step next ih =>
    change (step.run p >>= fun b => run p ((next b).bind f)) =
      (step.run p >>= fun b => run p (next b)) >>= fun a => run p (f a)
    rw [bind_assoc]
    exact bind_congr ih

@[simp] theorem run_ask (step : Ask α) : run p (liftM step : Plan α) = step.run p :=
  bind_pure (step.run p)

@[simp] theorem run_ite {c : Prop} [Decidable c] (x y : Plan α) :
    run p (if c then x else y) = if c then run p x else run p y := by
  split <;> rfl

end Following

section Selecting

mutual

def unite (source : Source) : Condition → ArraySet → Plan (Bool × ArraySet)
  | .test field valueTest, dest => source.unite field dest valueTest
  | .all [], dest => return (false, dest)
  | .all (first :: rest), dest => do
    let kept ← Ask.borrow
    let found ← unite source first kept
    let (alive, kept) ← narrow source rest found
    let dest ← if alive then dest.union (.stored kept) else pure dest
    Ask.giveBack kept
    return (alive, dest)
  | .any conditions, dest => uniteAny source conditions (false, dest)
  | .not condition, dest => do
    let inner ← Ask.borrow
    let (_, inner) ← unite source condition inner
    let others := inner.complement
    let found := !others.isEmpty
    let dest ← if found then dest.union (.stored others) else pure dest
    Ask.giveBack others
    return (found, dest)

def narrow (source : Source) : List Condition → Bool × ArraySet → Plan (Bool × ArraySet)
  | [], state => return state
  | condition :: rest, (alive, kept) =>
    if alive then do
      let matched ← Ask.borrow
      let (found, matched) ← unite source condition matched
      let state ← if found then kept.inter (.stored matched) else pure (false, kept)
      Ask.giveBack matched
      narrow source rest state
    else
      return (alive, kept)

def uniteAny (source : Source) : List Condition → Bool × ArraySet → Plan (Bool × ArraySet)
  | [], state => return state
  | condition :: rest, (found, dest) => do
    let (more, dest) ← unite source condition dest
    uniteAny source rest (found || more, dest)

end

def select (source : Source) : List Condition → Plan Selection
  | [] => return .all source.documents
  | first :: rest => do
    let kept ← Ask.borrow
    let found ← unite source first kept
    let (alive, kept) ← narrow source rest found
    if alive then
      return .matched kept
    else
      Ask.giveBack kept
      return .nothing source.documents

def recycle : Selection → Plan Unit
  | .matched set => Ask.giveBack set
  | .all _ | .nothing _ => return

end Selecting

section Emitting

def emitOne (source : Source) (document : Nat) : Plan Bool := do
  match ← Ask.offer with
  | .skip => return true
  | .stop => return false
  | .take =>
    match ← source.payload? document with
    | none => return true
    | some payload =>
      if ← Ask.process document payload then
        return !(← Ask.isDone)
      else
        return false

def emitAll (source : Source) : List Nat → Plan Bool
  | [] => return true
  | document :: rest => do
    if ← emitOne source document then
      emitAll source rest
    else
      return false

def emitRefined (refine : DocSet → Plan Bool) (held : Option ArraySet) (members : List Nat) :
    Plan (Bool × ArraySet) := do
  let set ← match held with
    | some set => pure set
    | none => Ask.borrow
  let filled ← (members.foldlM ArraySet.insert set : Except Fault ArraySet)
  let more ← refine (.stored filled)
  return (more, members.foldl ArraySet.erase filled)

def emitGroups (emit : Option ArraySet → List Nat → Plan (Bool × Option ArraySet)) :
    Option ArraySet → List (List Nat) → Plan (Bool × Option ArraySet)
  | held, [] => return (true, held)
  | held, members :: rest => do
    let (more, held) ← emit held members
    if more then
      emitGroups emit held rest
    else
      return (false, held)

def emitOrdered (source : Source) : List Order → DocSet → Plan Bool
  | [], docs => emitAll source docs.toList
  | order :: rest, docs =>
    match source.sort? order.field with
    | none => emitOrdered source rest docs
    | some index => do
      let groups ← index.groups order.direction docs
      let unranked ← index.unrankedOf docs
      let emit (held : Option ArraySet) (members : List Nat) : Plan (Bool × Option ArraySet) := do
        if rest.isEmpty || members.length < 2 then
          return (← emitAll source members, held)
        else
          let (more, set) ← emitRefined (emitOrdered source rest) held members
          return (more, some set)
      let (more, held) ← emitGroups emit none (groups.map (·.2) ++ [unranked])
      match held with
      | some set => Ask.giveBack set
      | none => pure ()
      return more

def emit (source : Source) (orders : List Order) (selection : Selection) : Plan Bool := do
  if ← Ask.isDone then
    return false
  else if selection.docs.isEmpty then
    return true
  else
    emitOrdered source orders selection.docs

end Emitting

/-- The plan of a query, which either serves a processor or only selects. -/
def query (source : Source) (q : Query) (serves : Bool) : Plan Database.Outcome := do
  let selection ← select source q.conditions
  let matched := selection.cardinality
  let completed ← if serves then emit source q.orders selection else pure true
  recycle selection
  return { matched, completed }

section Same

variable {p : Processor ρ} {source : Source}

-- By recursion on the condition and its lists, as the plans themselves.
mutual

theorem run_unite (condition : Condition) (dest : ArraySet) :
    run p (unite source condition dest) = condition.unite source dest := by
  cases condition with
  | test field valueTest =>
    rw [unite, Condition.unite, run_lift]
  | all conditions =>
    cases conditions with
    | nil => rw [unite, Condition.unite, run_pure]
    | cons first rest =>
      simp only [unite, Condition.unite, run_bind, run_ask, Ask.run, run_ite, run_lift, run_pure,
        run_unite first, run_narrow rest]
  | any conditions =>
    rw [unite, Condition.unite, run_uniteAny conditions]
  | not condition =>
    simp only [unite, Condition.unite, run_bind, run_ask, Ask.run, run_ite, run_lift, run_pure,
      run_unite condition]

theorem run_narrow (conditions : List Condition) (state : Bool × ArraySet) :
    run p (narrow source conditions state) = Condition.narrow source conditions state := by
  cases conditions with
  | nil => rw [narrow, Condition.narrow, run_pure]
  | cons condition rest =>
    simp only [narrow, Condition.narrow, run_bind, run_ask, Ask.run, run_ite, run_lift, run_pure,
      run_unite condition, run_narrow rest]

theorem run_uniteAny (conditions : List Condition) (state : Bool × ArraySet) :
    run p (uniteAny source conditions state) = Condition.uniteAny source conditions state := by
  cases conditions with
  | nil => rw [uniteAny, Condition.uniteAny, run_pure]
  | cons condition rest =>
    simp only [uniteAny, Condition.uniteAny, run_bind, run_unite condition, run_uniteAny rest]

end

theorem run_select (conditions : List Condition) :
    run p (select source conditions) = Selection.ofConditions source conditions := by
  cases conditions with
  | nil => rfl
  | cons first rest =>
    simp only [select, Selection.ofConditions, run_bind, run_ask, Ask.run, run_ite, run_pure,
      run_unite, run_narrow]

theorem run_recycle (selection : Selection) : run p (recycle selection) = selection.recycle := by
  cases selection with
  | all documents => rfl
  | matched set => exact run_ask (.giveBack set)
  | nothing documents => rfl

theorem run_emitOne (document : Nat) :
    run p (emitOne source document) = Emission.emitOne source p document := by
  simp only [emitOne, Emission.emitOne, run_bind, run_ask]
  apply bind_congr
  intro admission
  cases admission with
  | skip => rfl
  | stop => rfl
  | take =>
    simp only [run_bind, run_lift]
    apply bind_congr
    intro payload?
    cases payload? with
    | none => rfl
    | some payload => simp only [run_bind, run_ask, Ask.run, run_ite, run_pure]

theorem run_emitAll (documents : List Nat) :
    run p (emitAll source documents) = Emission.emitAll source p documents := by
  induction documents with
  | nil => rfl
  | cons document rest ih =>
    simp only [emitAll, Emission.emitAll, run_bind, run_ite, run_pure, run_emitOne, ih]

theorem run_emitRefined {refine : DocSet → Plan Bool} {refine' : DocSet → Running ρ Bool}
    (inner : ∀ docs, run p (refine docs) = refine' docs) (held : Option ArraySet)
    (members : List Nat) :
    run p (emitRefined refine held members) = Emission.emitRefined refine' held members := by
  cases held <;>
    simp only [emitRefined, Emission.emitRefined, run_bind, run_ask, Ask.run, run_lift, run_pure, inner]

theorem run_emitGroups {emit : Option ArraySet → List Nat → Plan (Bool × Option ArraySet)}
    {emit' : Option ArraySet → List Nat → Running ρ (Bool × Option ArraySet)}
    (inner : ∀ held members, run p (emit held members) = emit' held members)
    (held : Option ArraySet) (groups : List (List Nat)) :
    run p (emitGroups emit held groups) = Emission.emitGroups emit' held groups := by
  induction groups generalizing held with
  | nil => rfl
  | cons members rest ih =>
    simp only [emitGroups, Emission.emitGroups, run_bind, run_ite, run_pure, inner, ih]

theorem run_emitOrdered (orders : List Order) (docs : DocSet) :
    run p (emitOrdered source orders docs) = Emission.emitOrdered source p orders docs := by
  induction orders generalizing docs with
  | nil => exact run_emitAll docs.toList
  | cons order rest ih =>
    -- A field without an index is passed over; the rest refines the groups of the others.
    rw [emitOrdered, Emission.emitOrdered]
    cases source.sort? order.field with
    | none => exact ih docs
    | some index =>
      have each : ∀ (held : Option ArraySet) (members : List Nat),
          run p (do
            if rest.isEmpty || members.length < 2 then
              return (← emitAll source members, held)
            else
              let (more, set) ← emitRefined (emitOrdered source rest) held members
              return (more, some set)) = (do
            if rest.isEmpty || members.length < 2 then
              return (← Emission.emitAll source p members, held)
            else
              let (more, set) ← Emission.emitRefined (Emission.emitOrdered source p rest) held members
              return (more, some set)) := by
        intro held members
        simp only [run_ite, run_bind, run_pure, run_emitAll, run_emitRefined ih]
      simp only [run_bind, run_lift, run_emitGroups each]
      apply bind_congr
      intro groups
      apply bind_congr
      intro unranked
      apply bind_congr
      rintro ⟨more, held⟩
      cases held <;> simp only [run_bind, run_ask, Ask.run, run_pure]

theorem run_emit (orders : List Order) (selection : Selection) :
    run p (emit source orders selection) = Emission.emit source p orders selection := by
  simp only [emit, Emission.emit, run_bind, run_ask, Ask.run, run_ite, run_pure, run_emitOrdered]

/-- Following the plan of a query is running it. -/
theorem run_query (q : Query) :
    run p (query source q true) = Database.steps source q (some p) := by
  simp only [query, Database.steps, run_bind, run_pure, run_select, run_emit, run_recycle, if_true]

theorem run_query_selecting (q : Query) :
    run p (query source q false) = Database.steps source q none := by
  simp only [query, Database.steps, run_bind, run_ite, run_pure, run_select, run_recycle]
  rfl

end Same

section Emitted

variable {p : Processor ρ}

/-- Only an offer changes the page, and it takes nothing back. -/
theorem emitted_ask (step : Ask α) (s : Run ρ) :
    s.pager.emitted ≤ ((ExceptT.run (step.run p)).run s).2.pager.emitted := by
  cases step with
  | offer => exact Pager.emitted_offer s.pager
  | borrow | giveBack | isDone | process => exact Nat.le_refl _

theorem emitted_run (plan : Plan α) (s : Run ρ) :
    s.pager.emitted ≤ ((ExceptT.run (plan.run p)).run s).2.pager.emitted := by
  induction plan generalizing s with
  | done a => exact Nat.le_refl _
  | broken cause => exact Nat.le_refl _
  | ask step next ih =>
    have first := emitted_ask (p := p) step s
    rw [run, Meets.run_bind]
    generalize (ExceptT.run (step.run p)).run s = answered at first ⊢
    obtain ⟨_ | answer, t⟩ := answered
    · exact first
    · exact Nat.le_trans first (ih answer t)

theorem emitted_steps (source : Source) (q : Query) (processor? : Option (Processor ρ))
    (s : Run ρ) : s.pager.emitted ≤
      ((ExceptT.run (Database.steps source q processor?)).run s).2.pager.emitted := by
  cases processor? with
  | none => exact run_query_selecting (p := fun _ _ => pure true) q ▸ emitted_run _ s
  | some processor => exact run_query q ▸ emitted_run _ s

end Emitted

end Plan

end DocStore
