import DocStore.Proofs.Pool.Stock

/-! The account of one lender: what it has out is counted by its pool, and a context is busy for
the lender that is open on it. Every call of a lender keeps its account. -/
namespace DocStore

namespace Scratch

/-- The sets of a pool that a lender has out; one that is closed has none. -/
def holds (s : Scratch) (id : Nat) : Nat :=
  if s.released = false ∧ s.pool = id then s.outstanding else 0

def occupies (s : Scratch) (name : String) : Bool := !s.released && s.context = name

variable {s : Scratch}

theorem holds_of_open (unclosed : s.released = false) (id : Nat) :
    s.holds id = if id = s.pool then s.outstanding else 0 := by
  simp [holds, unclosed, eq_comm]

theorem holds_of_closed (closed : s.released = true) (id : Nat) : s.holds id = 0 := by
  simp [holds, closed]

theorem occupies_of_open (unclosed : s.released = false) (name : String) :
    s.occupies name = decide (name = s.context) := by
  simp [occupies, unclosed, eq_comm]

end Scratch

namespace Lender

def Covered (m : Lender) : Prop := ∀ id, m.scratch.holds id ≤ (m.arena.pool id).inFlight

/-- What a step of one lender adds to its own account, its pool and its context count too. -/
structure Balances (m m' : Lender) : Prop where
  inFlight : ∀ id, (m'.arena.pool id).inFlight + m.scratch.holds id =
    (m.arena.pool id).inFlight + m'.scratch.holds id
  quota : (∀ id, (m.arena.pool id).inFlight ≤ (m.arena.pool id).maxConcurrent) →
    ∀ id, (m'.arena.pool id).inFlight ≤ (m'.arena.pool id).maxConcurrent
  limit : m.scratch.outstanding ≤ m.scratch.limit → m'.scratch.outstanding ≤ m'.scratch.limit
  busy : ∀ name, (m'.arena.context name).busy.toNat + (m.scratch.occupies name).toNat =
    (m.arena.context name).busy.toNat + (m'.scratch.occupies name).toNat
  stocked : m.arena.Stocked → m'.arena.Stocked
  closed : m.scratch.released = true → m'.scratch.released = true

variable {m m' : Lender}

theorem Balances.refl (m : Lender) : m.Balances m where
  inFlight _ := rfl
  quota := id
  limit := id
  busy _ := rfl
  stocked := id
  closed := id

/-- Kept sets are in nobody's account. -/
theorem Balances.restock (balances : m.Balances m') {arena : Arena}
    (moves : m'.arena.Restocks arena) : m.Balances ⟨m'.scratch, arena⟩ where
  limit := balances.limit
  closed := balances.closed
  inFlight id := by
    rw [moves.inFlight]
    exact balances.inFlight id
  quota within id := by
    rw [moves.inFlight, moves.maxConcurrent]
    exact balances.quota within id
  busy name := by
    rw [moves.busy]
    exact balances.busy name
  stocked stocked := moves.stocked (balances.stocked stocked)

theorem inFlight_lent (free : m.borrowRefusal? = none) (id : Nat) :
    (m.lent.arena.pool id).inFlight =
      (m.arena.pool id).inFlight + if id = m.scratch.pool then 1 else 0 := by
  rw [pool_lent free]
  split
  · rename_i same
    rw [same]
    rfl
  · rfl

theorem inFlight_closed (m : Lender) (id : Nat) : (m.closed.arena.pool id).inFlight =
    (m.arena.pool id).inFlight - if id = m.scratch.pool then m.scratch.outstanding else 0 :=
  m.arena.inFlight_unreserve m.scratch.pool m.scratch.outstanding id

theorem inFlight_returned (m : Lender) (id : Nat) : (m.returned.arena.pool id).inFlight =
    (m.arena.pool id).inFlight - if id = m.scratch.pool then 1 else 0 :=
  m.arena.inFlight_unreserve m.scratch.pool 1 id

/-- The pool counts what a lender gives back or writes off, so that the count does not pass
zero. -/
theorem Covered.unreserve (covered : m.Covered) (unclosed : m.scratch.released = false)
    {count : Nat} (within : count ≤ m.scratch.outstanding) (id : Nat) :
    ((m.arena.pool id).inFlight - if id = m.scratch.pool then count else 0) + m.scratch.holds id =
      (m.arena.pool id).inFlight +
        if id = m.scratch.pool then m.scratch.outstanding - count else 0 := by
  have counted := covered id
  rw [Scratch.holds_of_open unclosed] at counted ⊢
  by_cases own : id = m.scratch.pool
  · simp only [if_pos own] at counted ⊢
    omega
  · simp only [if_neg own]
    omega

theorem busy_closed (m : Lender) (name : String) : (m.closed.arena.context name).busy =
    if name = m.scratch.context then false else (m.arena.context name).busy := by
  rw [closed, Scratch.close, Arena.context_modifyContext]
  split <;> rfl

theorem balances_lent (free : m.borrowRefusal? = none) : m.Balances m.lent := by
  obtain ⟨unclosed, within, room⟩ := borrowRefusal?_eq_none.mp free
  constructor
  · intro id
    rw [inFlight_lent free, Scratch.holds_of_open unclosed,
      Scratch.holds_of_open (s := m.lent.scratch) unclosed]
    change _ = _ + if id = m.scratch.pool then m.scratch.outstanding + 1 else 0
    split <;> omega
  · intro quota id
    rw [pool_lent free]
    split
    · exact room
    · exact quota id
  · intro _
    exact within
  · intro name
    rfl
  · exact (recounts_lent m).stocked
  · exact id

theorem balances_returned {size : Nat} (free : m.returnRefusal? size = none) (covered : m.Covered) :
    m.Balances m.returned := by
  obtain ⟨unclosed, _, out⟩ := returnRefusal?_eq_none.mp free
  constructor
  · intro id
    rw [inFlight_returned, Scratch.holds_of_open (s := m.returned.scratch) unclosed]
    exact covered.unreserve unclosed (Nat.pos_of_ne_zero out) id
  · intro quota id
    rw [(recounts_returned m).pools id, inFlight_returned]
    exact Nat.le_trans (Nat.sub_le _ _) (quota id)
  · intro limit
    exact Nat.le_trans (Nat.sub_le _ _) limit
  · intro name
    rfl
  · exact (recounts_returned m).stocked
  · exact id

theorem balances_closed (unclosed : m.scratch.released = false) (covered : m.Covered)
    (running : (m.arena.context m.scratch.context).busy = true) : m.Balances m.closed := by
  constructor
  · intro id
    rw [inFlight_closed, covered.unreserve unclosed (Nat.le_refl _), Nat.sub_self, ite_self,
      Scratch.holds_of_closed (s := m.closed.scratch) rfl]
  · intro quota id
    rw [(recounts_closed m).pools id, inFlight_closed]
    exact Nat.le_trans (Nat.sub_le _ _) (quota id)
  · intro _
    exact Nat.zero_le _
  · intro name
    rw [busy_closed, Scratch.occupies_of_open unclosed]
    by_cases own : name = m.scratch.context
    · rw [if_pos own, own, running]
      simp [Scratch.occupies, closed, Scratch.close]
    · simp [own, Scratch.occupies, closed, Scratch.close]
  · exact (recounts_closed m).stocked
  · intro _
    rfl

/-- Dropping closes a lender that is still open. -/
theorem balances_dropped (covered : m.Covered)
    (running : m.scratch.released = false → (m.arena.context m.scratch.context).busy = true) :
    m.Balances ⟨(m.scratch.close m.arena).1, m.scratch.drop m.arena⟩ := by
  rw [Scratch.drop]
  split
  · rename_i closed
    have idle (name : String) : m.scratch.occupies name = false := by
      simp [Scratch.occupies, closed]
    constructor
    · intro id
      rw [Scratch.holds_of_closed closed, Scratch.holds_of_closed rfl]
    · exact id
    · intro _
      exact Nat.zero_le _
    · intro name
      rw [idle]
      rfl
    · exact id
    · intro _
      rfl
  · rename_i unclosed
    have unclosed := Bool.not_eq_true _ ▸ unclosed
    exact balances_closed unclosed covered (running unclosed)

/-- A step that keeps the accounts of a lender whose account is in order, and that leaves
everything as it is when it is refused. -/
structure Orderly {α : Type} (action : Lending α) : Prop where
  balances : ∀ m : Lender, m.Covered →
    (m.scratch.released = false → (m.arena.context m.scratch.context).busy = true) →
    m.Balances ((ExceptT.run action).run m).2
  refused : ∀ (m : Lender) (e : PoolError),
    ((ExceptT.run action).run m).1 = .error (.refused e) → ((ExceptT.run action).run m).2 = m

theorem orderly_borrow : Orderly Lending.borrow where
  balances m _ _ := by
    rcases Lending.borrow_cases m with ⟨e, _, ran⟩ | ⟨answer, arena, ran, free, moves, _⟩
    · rw [ran]
      exact Balances.refl m
    · rw [ran]
      exact (balances_lent free).restock moves
  refused m e refused := by
    rcases Lending.borrow_cases m with ⟨_, _, ran⟩ | ⟨answer, arena, ran, _, _, noRefusal, _⟩
    · rw [ran]
    · rw [ran] at refused
      exact absurd refused (noRefusal e)

theorem orderly_giveBack (set : ArraySet) : Orderly (Lending.giveBack set) where
  balances m covered _ := by
    rcases Lending.giveBack_cases m set with ⟨e, _, ran⟩ | ⟨arena, ran, free, moves⟩
    · rw [ran]
      exact Balances.refl m
    · rw [ran]
      exact (balances_returned free covered).restock moves
  refused m e refused := by
    rcases Lending.giveBack_cases m set with ⟨_, _, ran⟩ | ⟨arena, ran, _⟩
    · rw [ran]
    · rw [ran] at refused
      exact absurd refused nofun

theorem orderly_release : Orderly Lending.release where
  balances m covered running := by
    rw [Lending.run_release]
    split
    · exact Balances.refl m
    · rename_i unclosed
      have unclosed := Bool.not_eq_true _ ▸ unclosed
      exact balances_closed unclosed covered (running unclosed)
  refused m e refused := by
    rw [Lending.run_release] at refused ⊢
    split at refused
    · rename_i released
      rw [if_pos released]
    · exact absurd refused nofun

end Lender

end DocStore
