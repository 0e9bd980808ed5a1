import DocStore.Database.Execution
import DocStore.Proofs.Query.Emitting
import DocStore.Proofs.Query.Selecting

/-! Two runs of one query side by side. Where borrowing, giving back and calling the processor end
the same way on both sides, whatever is built from them does, faults and refusals included. -/
namespace DocStore

variable {ρ α β : Type} {R : Nat → Run ρ → Run ρ → Prop} {held : Nat}

namespace Running

theorem run_lend {α : Type} {action : Lending α} {s : Run ρ} {l : Lender}
    {answer : Except (Failure PoolError) α}
    (ran : (ExceptT.run action).run ⟨s.scratch, s.engine.arena⟩ = (answer, l)) :
    (ExceptT.run (lend action)).run s = (answer, { s with
      scratch := l.scratch, engine := { s.engine with arena := l.arena } }) := by
  have eq : (ExceptT.run (lend action)).run s =
      ((ExceptT.run action).run ⟨s.scratch, s.engine.arena⟩).map id fun l => { s with
        scratch := l.scratch, engine := { s.engine with arena := l.arena } } := rfl
  rw [eq, ran]
  rfl

theorem run_process {processor : Processor ρ} {s : Run ρ} {document : Nat} {payload : View}
    {more : Bool} {engine : Engine} {own : ρ}
    (called : processor document payload (s.engine, s.own) = (more, engine, own)) :
    (ExceptT.run (process processor document payload)).run s =
      (.ok more, { s with engine, own }) := by
  have eq : (ExceptT.run (process processor document payload)).run s =
      (processor document payload (s.engine, s.own)).map .ok
        fun after => { s with engine := after.1, own := after.2 } := rfl
  rw [eq, called]
  rfl

end Running

/-- From runs alike, with `held` sets out, two computations end alike. How many sets are out then
follows from the answer; a computation that fails may leave any number out. -/
def Paired (R : Nat → Run ρ → Run ρ → Prop) (held : Nat) (x y : Running ρ α) (out : α → Nat) :
    Prop :=
  ∀ s t, R held s t → ∃ answer s' t' n, (ExceptT.run x).run s = (answer, s') ∧
    (ExceptT.run y).run t = (answer, t') ∧ R n s' t' ∧ ∀ a, answer = .ok a → n = out a

namespace Paired

variable {x y : Running ρ α} {f g : α → Running ρ β} {out : α → Nat} {out' : β → Nat}

theorem bind (first : Paired R held x y out) (next : ∀ a, Paired R (out a) (f a) (g a) out') :
    Paired R held (x >>= f) (y >>= g) out' := by
  intro s t alike
  obtain ⟨answer, s', t', n, ranLeft, ranRight, after, count⟩ := first s t alike
  rw [Meets.run_bind, Meets.run_bind, ranLeft, ranRight]
  cases answer with
  | error e => exact ⟨.error e, s', t', n, rfl, rfl, after, nofun⟩
  | ok a =>
    rw [count a rfl] at after
    exact next a s' t' after

theorem pure {a : α} (count : held = out a) :
    Paired R held (Pure.pure a) (Pure.pure a) out := by
  intro s t alike
  refine ⟨.ok a, s, t, held, rfl, rfl, alike, ?_⟩
  rintro _ ⟨⟩
  exact count

theorem lift (read : Except Fault α) : Paired R held (liftM read) (liftM read) fun _ => held := by
  intro s t alike
  cases read with
  | ok a => exact ⟨.ok a, s, t, held, rfl, rfl, alike, fun _ _ => rfl⟩
  | error cause => exact ⟨.error (.fault cause), s, t, held, rfl, rfl, alike, nofun⟩

theorem ite {c : Prop} [Decidable c] {x' y' : Running ρ α} (yes : Paired R held x y out)
    (no : Paired R held x' y' out) :
    Paired R held (if c then x else x') (if c then y else y') out := by
  split
  · exact yes
  · exact no

end Paired

/-- Runs alike stay alike in every step that a query is made of. On the two sides processors may
be different. -/
structure Lockstep (R : Nat → Run ρ → Run ρ → Prop) (p q : Processor ρ) : Prop where
  borrow : ∀ n, Paired R n Running.borrow Running.borrow fun _ => n + 1
  giveBack : ∀ n set, Paired R (n + 1) (Running.giveBack set) (Running.giveBack set) fun _ => n
  pager : ∀ {n s t}, R n s t → s.pager = t.pager
  turn : ∀ {n s t} pager, R n s t → R n { s with pager } { t with pager }
  process : ∀ n document payload, Paired R n (Running.process p document payload)
    (Running.process q document payload) fun _ => n

namespace Lockstep

variable {p q : Processor ρ} {source : Source}

theorem offer (steps : Lockstep R p q) :
    Paired R held Running.offer Running.offer fun _ => held := by
  intro s t alike
  have same : s.pager.offer = t.pager.offer := by rw [steps.pager alike]
  refine ⟨.ok s.pager.offer.1, { s with pager := s.pager.offer.2 },
    { t with pager := s.pager.offer.2 }, held, rfl, ?_, steps.turn _ alike, fun _ _ => rfl⟩
  rw [same]
  rfl

theorem isDone (steps : Lockstep R p q) :
    Paired R held Running.isDone Running.isDone fun _ => held := by
  intro s t alike
  refine ⟨.ok s.pager.isDone, s, t, held, rfl, ?_, alike, fun _ _ => rfl⟩
  rw [steps.pager alike]
  rfl

/-- A set that is borrowed for a part of a computation is given back after it. -/
theorem lent (steps : Lockstep R p q) {f g : ArraySet → Running ρ α} {out : α → Nat}
    (inner : ∀ set, Paired R (held + 1) (f set) (g set) out) :
    Paired R held (Running.borrow >>= f) (Running.borrow >>= g) out :=
  (steps.borrow held).bind inner

theorem returned (steps : Lockstep R p q) {set : ArraySet} {f g : Unit → Running ρ α}
    {out : α → Nat} (rest : Paired R held (f ()) (g ()) out) :
    Paired R (held + 1) (Running.giveBack set >>= f) (Running.giveBack set >>= g) out :=
  (steps.giveBack held set).bind fun _ => rest

section Selecting

open Condition

/-- The last step of a conjunction and of a negation. -/
theorem united (steps : Lockstep R p q) (alive : Bool) (kept dest : ArraySet) :
    Paired R (held + 1) (do
      let dest ← if alive then dest.union (.stored kept) else pure dest
      Running.giveBack kept
      return (alive, dest)) (do
      let dest ← if alive then dest.union (.stored kept) else pure dest
      Running.giveBack kept
      return (alive, dest)) fun _ => held := by
  have rest (dest : ArraySet) : Paired (ρ := ρ) R (held + 1)
      (Running.giveBack kept >>= fun _ => Pure.pure (alive, dest))
      (Running.giveBack kept >>= fun _ => Pure.pure (alive, dest)) fun _ => held :=
    steps.returned (Paired.pure rfl)
  cases alive with
  | false => exact (Paired.pure rfl).bind rest
  | true => exact (Paired.lift _).bind rest

-- By recursion on the condition and its lists. Each branch gives its own set back, so that as many
-- are out after it as before.
mutual

theorem unite (steps : Lockstep R p q) (condition : Condition) (dest : ArraySet) (held : Nat) :
    Paired R held (condition.unite source dest) (condition.unite source dest) fun _ => held := by
  cases condition with
  | test field valueTest => exact Paired.lift _
  | all conditions =>
    cases conditions with
    | nil => exact Paired.pure rfl
    | cons first rest =>
      rw [Condition.unite]
      apply steps.lent
      intro kept
      apply (steps.unite first kept (held + 1)).bind
      intro found
      apply (steps.narrow rest found (held + 1)).bind
      intro state
      exact steps.united state.1 state.2 dest
  | any conditions =>
    rw [Condition.unite]
    exact steps.uniteAny conditions (false, dest) held
  | not condition =>
    rw [Condition.unite]
    apply steps.lent
    intro inner
    apply (steps.unite condition inner (held + 1)).bind
    intro found
    exact steps.united (!found.2.complement.isEmpty) found.2.complement dest

theorem narrow (steps : Lockstep R p q) (conditions : List Condition) (state : Bool × ArraySet)
    (held : Nat) :
    Paired R held (narrow source conditions state) (narrow source conditions state)
      fun _ => held := by
  obtain ⟨alive, kept⟩ := state
  cases conditions with
  | nil =>
    rw [Condition.narrow]
    exact Paired.pure rfl
  | cons condition rest =>
    rw [Condition.narrow]
    split
    · apply steps.lent
      intro matched
      apply (steps.unite condition matched (held + 1)).bind
      rintro ⟨found, matched⟩
      have later (state : Bool × ArraySet) : Paired (ρ := ρ) R (held + 1)
          (Running.giveBack matched >>= fun _ => Condition.narrow source rest state)
          (Running.giveBack matched >>= fun _ => Condition.narrow source rest state)
          fun _ => held := steps.returned (steps.narrow rest state held)
      cases found with
      | false => exact (Paired.pure rfl).bind later
      | true => exact (Paired.lift _).bind later
    · exact Paired.pure rfl

theorem uniteAny (steps : Lockstep R p q) (conditions : List Condition) (state : Bool × ArraySet)
    (held : Nat) :
    Paired R held (uniteAny source conditions state) (uniteAny source conditions state)
      fun _ => held := by
  obtain ⟨found, dest⟩ := state
  cases conditions with
  | nil =>
    rw [Condition.uniteAny]
    exact Paired.pure rfl
  | cons condition rest =>
    rw [Condition.uniteAny]
    apply (steps.unite condition dest held).bind
    intro more
    exact steps.uniteAny rest _ held

end

theorem ofConditions (steps : Lockstep R p q) (conditions : List Condition) :
    Paired R held (Selection.ofConditions source conditions)
      (Selection.ofConditions source conditions) fun selection => held + selection.held := by
  cases conditions with
  | nil => exact Paired.pure rfl
  | cons first rest =>
    rw [Selection.ofConditions]
    apply steps.lent
    intro kept
    apply (steps.unite first kept (held + 1)).bind
    intro found
    apply (steps.narrow rest found (held + 1)).bind
    rintro ⟨alive, kept⟩
    cases alive with
    | true => exact Paired.pure rfl
    | false => exact steps.returned (Paired.pure rfl)

theorem recycle (steps : Lockstep R p q) (selection : Selection) :
    Paired R (held + selection.held) selection.recycle selection.recycle fun _ => held := by
  cases selection with
  | matched set => exact steps.giveBack held set
  | all documents => exact Paired.pure rfl
  | nothing documents => exact Paired.pure rfl

end Selecting

section Emitting

open Emission

theorem emitOne (steps : Lockstep R p q) (document : Nat) :
    Paired R held (emitOne source p document) (emitOne source q document) fun _ => held := by
  rw [Emission.emitOne, Emission.emitOne]
  apply steps.offer.bind
  intro admission
  cases admission with
  | skip => exact Paired.pure rfl
  | stop => exact Paired.pure rfl
  | take =>
    apply (Paired.lift _).bind
    intro payload
    cases payload with
    | none => exact Paired.pure rfl
    | some payload =>
      apply (steps.process held document payload).bind
      intro more
      cases more with
      | false => exact Paired.pure rfl
      | true =>
        apply steps.isDone.bind
        intro done
        exact Paired.pure rfl

theorem emitAll (steps : Lockstep R p q) (documents : List Nat) :
    Paired R held (emitAll source p documents) (emitAll source q documents) fun _ => held := by
  induction documents with
  | nil => exact Paired.pure rfl
  | cons document rest ih =>
    rw [Emission.emitAll, Emission.emitAll]
    apply (steps.emitOne document).bind
    intro more
    cases more with
    | true => exact ih
    | false => exact Paired.pure rfl

/-- One set serves all groups: it is borrowed for the first group that needs it. -/
theorem emitRefined (steps : Lockstep R p q) {refine refine' : DocSet → Running ρ Bool}
    (inner : ∀ docs, Paired R (held + 1) (refine docs) (refine' docs) fun _ => held + 1)
    (kept : Option ArraySet) (members : List Nat) :
    Paired R (held + count kept) (emitRefined refine kept members)
      (emitRefined refine' kept members) fun _ => held + 1 := by
  have filled (set : ArraySet) : Paired (ρ := ρ) R (held + 1)
      ((liftM (members.foldlM ArraySet.insert set : Except Fault ArraySet) : Running ρ ArraySet)
        >>= fun filled => refine (.stored filled) >>= fun more =>
          Pure.pure (more, members.foldl ArraySet.erase filled))
      ((liftM (members.foldlM ArraySet.insert set : Except Fault ArraySet) : Running ρ ArraySet)
        >>= fun filled => refine' (.stored filled) >>= fun more =>
          Pure.pure (more, members.foldl ArraySet.erase filled)) fun _ => held + 1 := by
    apply (Paired.lift _).bind
    intro filled
    apply (inner (.stored filled)).bind
    intro more
    exact Paired.pure rfl
  cases kept with
  | none => exact (steps.borrow held).bind filled
  | some set => exact (Paired.pure rfl).bind filled

theorem emitGroups {emit emit' : Option ArraySet → List Nat → Running ρ (Bool × Option ArraySet)}
    (inner : ∀ kept members, Paired R (held + count kept) (emit kept members)
      (emit' kept members) fun answer => held + count answer.2)
    (kept : Option ArraySet) (groups : List (List Nat)) :
    Paired R (held + count kept) (emitGroups emit kept groups) (emitGroups emit' kept groups)
      fun answer => held + count answer.2 := by
  induction groups generalizing kept with
  | nil => exact Paired.pure rfl
  | cons members rest ih =>
    rw [Emission.emitGroups, Emission.emitGroups]
    apply (inner kept members).bind
    rintro ⟨more, kept⟩
    cases more with
    | true => exact ih kept
    | false => exact Paired.pure rfl

theorem emitOrdered (steps : Lockstep R p q) (orders : List Order) (docs : DocSet) (held : Nat) :
    Paired R held (emitOrdered source p orders docs) (emitOrdered source q orders docs)
      fun _ => held := by
  induction orders generalizing docs held with
  | nil => exact steps.emitAll docs.toList
  | cons order rest ih =>
    rw [Emission.emitOrdered, Emission.emitOrdered]
    cases source.sort? order.field with
    | none => exact ih docs held
    | some index =>
      apply (Paired.lift _).bind
      intro groups
      apply (Paired.lift _).bind
      intro unranked
      refine (Lockstep.emitGroups (fun kept members => ?_) none _).bind ?_
      · apply Paired.ite
        · apply (steps.emitAll members).bind
          intro more
          exact Paired.pure rfl
        · apply (steps.emitRefined (fun docs => ih docs (held + 1)) kept members).bind
          rintro ⟨more, set⟩
          exact Paired.pure rfl
      · rintro ⟨more, kept⟩
        cases kept with
        | none => exact Paired.pure rfl
        | some set => exact steps.returned (Paired.pure rfl)

theorem emit (steps : Lockstep R p q) (orders : List Order) (selection : Selection) :
    Paired R held (emit source p orders selection) (emit source q orders selection)
      fun _ => held := by
  apply steps.isDone.bind
  intro done
  apply Paired.ite
  · exact Paired.pure rfl
  · apply Paired.ite
    · exact Paired.pure rfl
    · exact steps.emitOrdered orders selection.docs held

end Emitting

/-- A whole query gives back what it borrows. -/
theorem steps (steps : Lockstep R p q) (query : Query) :
    Paired R held (Database.steps source query (some p)) (Database.steps source query (some q))
      fun _ => held := by
  apply (steps.ofConditions query.conditions).bind
  intro selection
  apply (steps.emit query.orders selection).bind
  intro completed
  apply (steps.recycle selection).bind
  intro _
  exact Paired.pure rfl

/-- A query that only selects gives back what it borrows too. -/
theorem selecting (steps : Lockstep R p q) (query : Query) :
    Paired R held (Database.steps (ρ := ρ) source query none)
      (Database.steps (ρ := ρ) source query none) fun _ => held := by
  apply (steps.ofConditions query.conditions).bind
  intro selection
  have counted : Paired R (held + selection.held) (Pure.pure true) (Pure.pure true)
      fun _ => held + selection.held := Paired.pure rfl
  apply counted.bind
  intro completed
  apply (steps.recycle selection).bind
  intro _
  exact Paired.pure rfl

end Lockstep

end DocStore
