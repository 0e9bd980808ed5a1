import DocStore.Proofs.Query.Plans
import DocStore.Proofs.Query.Selecting

/-! How many scratch sets a query has out at a time. The number follows the nesting of its
conditions and the number of fields that it orders by, and not how many documents or conditions
side by side there are: the set of one of these is given back before the next one is borrowed, and
one set serves all groups of a field. -/
namespace DocStore

variable {α β : Type}

namespace Condition

mutual

/-- How many sets evaluating a condition has out at a time. -/
def need : Condition → Nat
  | test _ _ => 0
  | all conditions => jointNeed conditions
  | any conditions => mostNeed conditions
  | not condition => 1 + condition.need

def jointNeed : List Condition → Nat
  | [] => 0
  | first :: rest => 1 + max first.need (laterNeed rest)

def laterNeed : List Condition → Nat
  | [] => 0
  | first :: rest => max (1 + first.need) (laterNeed rest)

def mostNeed : List Condition → Nat
  | [] => 0
  | first :: rest => max first.need (mostNeed rest)

end

end Condition

/-- How many sets a query has out at a time: while it evaluates its conditions, or while it orders
what they leave, with a set of the documents and one for each field but the last. -/
def Query.demand (q : Query) : Nat :=
  max (Condition.jointNeed q.conditions)
    ((if q.conditions.isEmpty then 0 else 1) + (q.orders.length - 1))

namespace ArraySet

variable {size : Nat} {dest kept : ArraySet}

theorem Over.union (sized : dest.Over size) (other : kept.Over size) (small : size + 63 < sizeLimit)
    {united : ArraySet} (added : dest.union (.stored kept) = .ok united) : united.Over size := by
  obtain ⟨set, same, sizes, trimmed, _⟩ :=
    union_eq (fun _ => (other.readable small).legible) (sized.size ▸ small)
  cases same.symm.trans added
  exact ⟨sizes.trans sized.size, trimmed⟩

theorem Over.inter (sized : dest.Over size) (other : kept.Over size) (small : size + 63 < sizeLimit)
    {answer : Bool × ArraySet} (both : dest.inter (.stored kept) = .ok answer) :
    answer.2.Over size := by
  obtain ⟨some, set, same, sizes, trimmed, _⟩ :=
    inter_eq sized.trimmed (fun _ => (other.readable small).legible) (sized.size ▸ small)
  cases same.symm.trans both
  exact ⟨sizes.trans sized.size, trimmed⟩

theorem size_foldlM_insert {members : List Nat} {set filled : ArraySet}
    (inserted : members.foldlM insert set = .ok filled) : filled.size = set.size := by
  induction members generalizing set with
  | nil =>
    cases inserted
    rfl
  | cons first rest ih =>
    rw [List.foldlM_cons] at inserted
    obtain ⟨next, stepped, later⟩ := bind_eq_ok.mp inserted
    exact (ih later).trans (size_insert stepped)

end ArraySet

/-- What a step needs, with some sets of a size out and a quota of them, so that `after` holds of
its answer and of the number of sets that are out then. -/
def Ask.Within (size quota : Nat) : Ask β → (β → Nat → Prop) → Nat → Prop
  | borrow, after, held => held < quota ∧ after (.empty size) (held + 1)
  | giveBack set, after, held => set.size = size ∧ 0 < held ∧ after () (held - 1)
  | offer, after, held | isDone, after, held | process _ _, after, held =>
    ∀ answer, after answer held

theorem Ask.Within.mono {size quota held : Nat} {step : Ask β} {after after' : β → Nat → Prop}
    (within : step.Within size quota after held)
    (weaken : ∀ b held, after b held → after' b held) : step.Within size quota after' held := by
  cases step with
  | borrow => exact ⟨within.1, weaken _ _ within.2⟩
  | giveBack set => exact ⟨within.1, within.2.1, weaken _ _ within.2.2⟩
  | offer | isDone | process => exact fun answer => weaken _ _ (within answer)

namespace Plan

def Within (size quota : Nat) : Plan α → (α → Nat → Prop) → Nat → Prop
  | done a, post, held => post a held
  | broken _, _, _ => True
  | ask step next, post, held =>
    step.Within size quota (fun b held => (next b).Within size quota post held) held

variable {size quota held : Nat} {x : Plan α} {f : α → Plan β} {post post' : α → Nat → Prop}

theorem within_lift {read : Except Fault α} (each : ∀ a, read = .ok a → post a held) :
    (liftM read : Plan α).Within size quota post held := by
  cases read with
  | error cause => trivial
  | ok a => exact each a rfl

theorem within_bind {post : β → Nat → Prop} : (x >>= f).Within size quota post held ↔
    x.Within size quota (fun a held => (f a).Within size quota post held) held := by
  induction x generalizing held with
  | done a => rfl
  | broken cause => rfl
  | ask step next ih =>
    have same : (fun b held => ((next b).bind f).Within size quota post held) = fun b held =>
        (next b).Within size quota (fun a held => (f a).Within size quota post held) held :=
      funext fun b => funext fun held => propext (@ih b held)
    exact iff_of_eq (congrArg (step.Within size quota · held) same)

theorem Within.mono (within : x.Within size quota post held)
    (weaken : ∀ a held, post a held → post' a held) : x.Within size quota post' held := by
  induction x generalizing held with
  | done a => exact weaken a held within
  | broken cause => trivial
  | ask step next ih => exact within.mono fun b held inner => ih b inner

namespace Within

theorem bind {middle : α → Nat → Prop} {post : β → Nat → Prop}
    (first : x.Within size quota middle held)
    (next : ∀ a now, middle a now → (f a).Within size quota post now) :
    (x >>= f).Within size quota post held := within_bind.mpr (first.mono next)

theorem lift {read : Except Fault α} {post : β → Nat → Prop}
    (next : ∀ a, read = .ok a → (f a).Within size quota post held) :
    ((liftM read : Plan α) >>= f).Within size quota post held :=
  within_bind.mpr (within_lift next)

theorem ask {step : Ask α} {post : β → Nat → Prop}
    (stepped : step.Within size quota (fun a now => (f a).Within size quota post now) held) :
    ((liftM step : Plan α) >>= f).Within size quota post held := stepped

theorem borrow {f : ArraySet → Plan β} {post : β → Nat → Prop} (room : held < quota)
    (next : (f (.empty size)).Within size quota post (held + 1)) :
    ((liftM Ask.borrow : Plan ArraySet) >>= f).Within size quota post held := ⟨room, next⟩

theorem giveBack {set : ArraySet} {f : Unit → Plan β} {post : β → Nat → Prop}
    (fits : set.size = size) (next : (f ()).Within size quota post held) :
    ((liftM (Ask.giveBack set) : Plan Unit) >>= f).Within size quota post (held + 1) :=
  ⟨fits, Nat.succ_pos held, next⟩

end Within

section Selecting

variable {source : Source} {truthful : Prop} {passes : String → ValueTest → Nat → Prop}
  {dest kept : ArraySet} {alive : Bool}

def Settled (size held : Nat) (answer : Bool × ArraySet) (now : Nat) : Prop :=
  now = held ∧ answer.2.Over size

/-- The last step of a conjunction and of a negation gives the set back. -/
theorem back_within (sized : dest.Over size) (other : kept.Over size)
    (small : size + 63 < sizeLimit) :
    (do
      let dest ← if alive then dest.union (.stored kept) else pure dest
      Ask.giveBack kept
      return (alive, dest) : Plan (Bool × ArraySet)).Within size quota (Settled size held)
        (held + 1) := by
  cases alive with
  | false => exact Within.giveBack other.size ⟨rfl, sized⟩
  | true =>
    exact Within.lift fun united added =>
      Within.giveBack other.size ⟨rfl, sized.union other small added⟩

-- By recursion on the condition and its lists, as the plans themselves.
mutual

/-- Evaluating a condition has no more sets out than it needs, and gives them all back. -/
theorem unite_within {held : Nat} {dest : ArraySet} (answers : source.Answers truthful passes)
    (condition : Condition) (sized : dest.Over source.documents)
    (enough : held + condition.need ≤ quota) :
    (unite source condition dest).Within source.documents quota (Settled source.documents held)
      held := by
  cases condition with
  | test field valueTest =>
    rw [unite]
    apply within_lift
    intro answer united
    obtain ⟨_, same, added⟩ := answers.unite field valueTest dest sized
    cases same.symm.trans united
    exact ⟨rfl, added.sized sized⟩
  | all conditions =>
    cases conditions with
    | nil =>
      rw [unite]
      exact ⟨rfl, sized⟩
    | cons first rest =>
      rw [Condition.need, Condition.jointNeed] at enough
      rw [unite]
      apply Within.borrow (by omega)
      apply (unite_within answers first (ArraySet.over_empty _) (by omega)).bind
      rintro found _ ⟨rfl, covers⟩
      apply (narrow_within answers rest covers (by omega)).bind
      rintro ⟨alive, kept⟩ _ ⟨rfl, covers⟩
      exact back_within sized covers answers.small
  | any conditions =>
    rw [Condition.need] at enough
    rw [unite]
    exact uniteAny_within answers conditions sized enough
  | not condition =>
    rw [Condition.need] at enough
    rw [unite]
    apply Within.borrow (by omega)
    apply (unite_within answers condition (ArraySet.over_empty _) (by omega)).bind
    rintro ⟨found, inner⟩ _ ⟨rfl, covers⟩
    exact back_within sized ⟨covers.size, ArraySet.trimmed_complement inner⟩ answers.small

theorem narrow_within {held : Nat} {state : Bool × ArraySet}
    (answers : source.Answers truthful passes) (conditions : List Condition)
    (sized : state.2.Over source.documents)
    (enough : held + Condition.laterNeed conditions ≤ quota) :
    (narrow source conditions state).Within source.documents quota (Settled source.documents held)
      held := by
  obtain ⟨alive, kept⟩ := state
  cases conditions with
  | nil =>
    rw [narrow]
    exact ⟨rfl, sized⟩
  | cons condition rest =>
    rw [Condition.laterNeed] at enough
    rw [narrow]
    cases alive with
    | false => exact ⟨rfl, sized⟩
    | true =>
      apply Within.borrow (by omega)
      apply (unite_within answers condition (ArraySet.over_empty _) (by omega)).bind
      rintro ⟨found, matched⟩ _ ⟨rfl, covers⟩
      cases found with
      | false => exact Within.giveBack covers.size (narrow_within answers rest sized (by omega))
      | true =>
        apply Within.lift
        intro state both
        apply Within.giveBack covers.size
        exact narrow_within answers rest (sized.inter covers answers.small both) (by omega)

theorem uniteAny_within {held : Nat} {state : Bool × ArraySet}
    (answers : source.Answers truthful passes) (conditions : List Condition)
    (sized : state.2.Over source.documents)
    (enough : held + Condition.mostNeed conditions ≤ quota) :
    (uniteAny source conditions state).Within source.documents quota
      (Settled source.documents held) held := by
  obtain ⟨found, dest⟩ := state
  cases conditions with
  | nil =>
    rw [uniteAny]
    exact ⟨rfl, sized⟩
  | cons condition rest =>
    rw [Condition.mostNeed] at enough
    rw [uniteAny]
    apply (unite_within answers condition sized (by omega)).bind
    rintro ⟨more, united⟩ _ ⟨rfl, covers⟩
    exact uniteAny_within answers rest covers (by omega)

end

def Selected (size : Nat) (conditions : List Condition) : Selection → Nat → Prop
  | .matched set, now => now = 1 ∧ conditions ≠ [] ∧ set.Over size
  | .all _, now | .nothing _, now => now = 0

theorem select_within (answers : source.Answers truthful passes) (conditions : List Condition)
    (enough : Condition.jointNeed conditions ≤ quota) :
    (select source conditions).Within source.documents quota
      (Selected source.documents conditions) 0 := by
  cases conditions with
  | nil => exact rfl
  | cons first rest =>
    rw [Condition.jointNeed] at enough
    rw [select]
    apply Within.borrow (by omega)
    apply (unite_within answers first (ArraySet.over_empty _) (by omega)).bind
    rintro found _ ⟨rfl, covers⟩
    apply (narrow_within answers rest covers (by omega)).bind
    rintro ⟨alive, kept⟩ _ ⟨rfl, covers⟩
    cases alive with
    | false => exact Within.giveBack covers.size rfl
    | true => exact ⟨rfl, List.cons_ne_nil first rest, covers⟩

end Selecting

section Emitting

variable {source : Source}

def Keeping (size held : Nat) : Option ArraySet → Nat → Prop
  | none, now => now = held
  | some set, now => now = held + 1 ∧ set.size = size

theorem emitOne_within (document : Nat) :
    (emitOne source document).Within size quota (fun _ now => now = held) held := by
  rw [emitOne]
  apply Within.ask
  intro admission
  cases admission with
  | skip => exact rfl
  | stop => exact rfl
  | take =>
    apply Within.lift
    intro payload _
    cases payload with
    | none => exact rfl
    | some payload =>
      apply Within.ask
      intro more
      cases more with
      | false => exact rfl
      | true => exact Within.ask fun _ => rfl

theorem emitAll_within (documents : List Nat) :
    (emitAll source documents).Within size quota (fun _ now => now = held) held := by
  induction documents with
  | nil => exact rfl
  | cons document rest ih =>
    rw [emitAll]
    apply (emitOne_within document).bind
    rintro (_ | _) _ rfl
    · exact rfl
    · exact ih

/-- A group is ordered in the set that the field keeps, or in the first one that it borrows. -/
theorem emitRefined_within {refine : DocSet → Plan Bool} {kept : Option ArraySet} {now : Nat}
    (inner : ∀ docs, (refine docs).Within size quota (fun _ now => now = held + 1) (held + 1))
    (room : held < quota) (keeping : Keeping size held kept now) (members : List Nat) :
    (emitRefined refine kept members).Within size quota
      (fun answer now => Keeping size held (some answer.2) now) now := by
  have filling : ∀ set : ArraySet, set.size = size → (do
      let filled ← (members.foldlM ArraySet.insert set : Except Fault ArraySet)
      let more ← refine (.stored filled)
      return (more, members.foldl ArraySet.erase filled) : Plan (Bool × ArraySet)).Within size
        quota (fun answer now => Keeping size held (some answer.2) now) (held + 1) := by
    intro set fits
    apply Within.lift
    intro filled inserted
    apply (inner _).bind
    rintro more _ rfl
    refine ⟨rfl, (ArraySet.foldl_erase filled members).1.trans ?_⟩
    exact (ArraySet.size_foldlM_insert inserted).trans fits
  cases kept with
  | none =>
    cases keeping
    exact Within.borrow room (filling _ rfl)
  | some set =>
    obtain ⟨rfl, fits⟩ := keeping
    exact filling set fits

theorem emitGroups_within {emit : Option ArraySet → List Nat → Plan (Bool × Option ArraySet)}
    (each : ∀ kept members now, Keeping size held kept now → (emit kept members).Within size quota
      (fun answer now => Keeping size held answer.2 now) now)
    {kept : Option ArraySet} {now : Nat} (keeping : Keeping size held kept now)
    (groups : List (List Nat)) :
    (emitGroups emit kept groups).Within size quota
      (fun answer now => Keeping size held answer.2 now) now := by
  induction groups generalizing kept now with
  | nil => exact keeping
  | cons members rest ih =>
    rw [emitGroups]
    apply (each kept members now keeping).bind
    rintro ⟨_ | _, kept⟩ now keeping
    · exact keeping
    · exact ih keeping

/-- Every field but the last keeps one set while the fields behind it order its groups. -/
theorem emitOrdered_within (orders : List Order) (docs : DocSet)
    (enough : held + (orders.length - 1) ≤ quota) :
    (emitOrdered source orders docs).Within size quota (fun _ now => now = held) held := by
  induction orders generalizing docs held with
  | nil => exact emitAll_within docs.toList
  | cons order rest ih =>
    rw [List.length_cons, Nat.add_sub_cancel] at enough
    rw [emitOrdered]
    cases source.sort? order.field with
    | none => exact ih docs (by omega)
    | some index =>
      apply Within.lift
      intro groups _
      apply Within.lift
      intro unranked _
      have none : Keeping size held none held := rfl
      refine Within.bind (emitGroups_within ?_ none _) ?_
      · intro kept members now keeping
        split
        · apply (emitAll_within members).bind
          rintro more _ rfl
          exact keeping
        · rename_i refined
          have some : rest ≠ [] := by
            rintro rfl
            exact refined rfl
          have more := List.length_pos_iff.mpr some
          apply (emitRefined_within (fun docs => ih docs (by omega)) (by omega) keeping
            members).bind
          rintro ⟨more, set⟩ now keeping
          exact keeping
      · rintro ⟨more, _ | set⟩ now keeping
        · exact keeping
        · obtain ⟨rfl, fits⟩ := keeping
          exact Within.giveBack fits rfl

theorem emit_within (orders : List Order) (selection : Selection)
    (enough : held + (orders.length - 1) ≤ quota) :
    (emit source orders selection).Within size quota (fun _ now => now = held) held := by
  have rest : (if selection.docs.isEmpty then return true
      else emitOrdered source orders selection.docs : Plan Bool).Within size quota
        (fun _ now => now = held) held := by
    split
    · exact rfl
    · exact emitOrdered_within orders _ enough
  rw [emit]
  apply Within.ask
  intro done
  cases done with
  | false => exact rest
  | true => exact rfl

end Emitting

/-- A query has no more sets out than its demand, and gives them all back. -/
theorem query_within {source : Source} {truthful : Prop}
    {passes : String → ValueTest → Nat → Prop} (answers : source.Answers truthful passes)
    (q : Query) (serves : Bool) (enough : q.demand ≤ quota) :
    (query source q serves).Within source.documents quota (fun _ now => now = 0) 0 := by
  unfold Query.demand at enough
  rw [query]
  apply (select_within answers q.conditions (by omega)).bind
  intro selection now selected
  have out : now + (q.orders.length - 1) ≤ quota := by
    cases selection with
    | matched set =>
      obtain ⟨rfl, some, _⟩ := selected
      simp [some] at enough
      omega
    | all _ | nothing _ =>
      cases selected
      omega
  have recycled : ∀ outcome : Database.Outcome, (do
      recycle selection
      return outcome : Plan Database.Outcome).Within source.documents quota (fun _ now => now = 0)
        now := by
    intro outcome
    cases selection with
    | matched set =>
      obtain ⟨rfl, _, covers⟩ := selected
      exact Within.giveBack covers.size rfl
    | all _ | nothing _ => exact selected
  cases serves with
  | false => exact recycled _
  | true =>
    apply (emit_within q.orders selection out).bind
    rintro completed _ rfl
    exact recycled _

end Plan

end DocStore
