import DocStore.Query.Basic
import DocStore.Query.Selection

/-!
Emitting a selection. Documents go to the processor in the order that the query asks for, from
the page on and until it is full or the processor has enough. Ordering by a field splits the
documents into groups of one rank; a group of several is ordered by the next field over a
borrowed set, and one such set serves all groups.
-/

namespace DocStore.Emission

variable {ρ : Type}

/-- Emits a document, if the page has come to it. A document without payload fills a place of
the page and is not processed. -/
def emitOne (source : Source) (processor : Processor ρ) (document : Nat) : Running ρ Bool := do
  match ← Running.offer with
  | .skip => return true
  | .stop => return false
  | .take =>
    match ← source.payload? document with
    | none => return true
    | some payload =>
      if ← Running.process processor document payload then
        return !(← Running.isDone)
      else
        return false

/-- Emits documents one after the other, and answers whether to go on. -/
def emitAll (source : Source) (processor : Processor ρ) : List Nat → Running ρ Bool
  | [] => return true
  | document :: rest => do
    if ← emitOne source processor document then
      emitAll source processor rest
    else
      return false

/-- Fills a set with the members of a group, has it emitted, and removes them again. -/
def emitRefined (refine : DocSet → Running ρ Bool) (held : Option ArraySet)
    (members : List Nat) : Running ρ (Bool × ArraySet) := do
  let set ← match held with
    | some set => pure set
    | none => Running.borrow
  let filled ← (members.foldlM ArraySet.insert set : Except Fault ArraySet)
  let more ← refine (.stored filled)
  return (more, members.foldl ArraySet.erase filled)

/-- Emits groups one after the other, each by `emit`, which may borrow a set for all of them. -/
def emitGroups (emit : Option ArraySet → List Nat → Running ρ (Bool × Option ArraySet)) :
    Option ArraySet → List (List Nat) → Running ρ (Bool × Option ArraySet)
  | held, [] => return (true, held)
  | held, members :: rest => do
    let (more, held) ← emit held members
    if more then
      emitGroups emit held rest
    else
      return (false, held)

/-- Emits the documents of a set, ordered by some fields and then by their numbers. A field
without an index orders nothing. -/
def emitOrdered (source : Source) (processor : Processor ρ) :
    List Order → DocSet → Running ρ Bool
  | [], docs => emitAll source processor docs.toList
  | order :: rest, docs =>
    match source.sort? order.field with
    | none => emitOrdered source processor rest docs
    | some index => do
      let groups ← index.groups order.direction docs
      let unranked ← index.unrankedOf docs
      let emit (held : Option ArraySet) (members : List Nat) :
          Running ρ (Bool × Option ArraySet) := do
        if rest.isEmpty || members.length < 2 then
          return (← emitAll source processor members, held)
        else
          let (more, set) ← emitRefined (emitOrdered source processor rest) held members
          return (more, some set)
      let (more, held) ← emitGroups emit none (groups.map (·.2) ++ [unranked])
      match held with
      | some set => Running.giveBack set
      | none => pure ()
      return more

/-- Emits a selection, and answers whether to go on. A full page ends it at once. -/
def emit (source : Source) (processor : Processor ρ) (orders : List Order)
    (selection : Selection) : Running ρ Bool := do
  if ← Running.isDone then
    return false
  else if selection.docs.isEmpty then
    return true
  else
    emitOrdered source processor orders selection.docs

end DocStore.Emission
