import Mathlib.Algebra.Order.BigOperators.Group.List
import Mathlib.Algebra.Order.Group.Nat
import DocStore.Proofs.Pool.Balances

/-! Any number of lenders on any number of pools and contexts, called in any order. The counters
of pools and contexts always agree with the lenders that are open, and a call that is refused
changes nothing. -/
namespace DocStore

structure Lenders where
  arena : Arena
  opened : List Scratch

namespace Lenders

/-- What callers can ask for. A lender is named by its place among the lenders opened so far. -/
inductive Call where
  | addPool (size maxConcurrent : Nat)
  | openOn (context : String) (pool limit : Nat)
  | borrow (lender : Nat)
  | giveBack (lender : Nat) (set : ArraySet)
  | release (lender : Nat)
  | drop (lender : Nat)

def start : Lenders := ⟨.empty, []⟩

def lender? (l : Lenders) (n : Nat) : Option Lender := l.opened[n]?.map fun s => ⟨s, l.arena⟩

def put (l : Lenders) (n : Nat) (m : Lender) : Lenders := ⟨m.arena, l.opened.set n m.scratch⟩

def lend {α : Type} (l : Lenders) (n : Nat) (action : Lending α) :
    Except (Failure PoolError) α × Lenders :=
  match l.lender? n with
  | none => (.error (.fault .outOfRange), l)
  | some m => ((ExceptT.run action).run m).map id (l.put n)

/-- One call, and the set that it answers if it answers one. -/
def step (l : Lenders) : Call → Except (Failure PoolError) (Option ArraySet) × Lenders
  | .addPool size maxConcurrent =>
    (.ok none, { l with arena := l.arena.addPool (.empty size maxConcurrent) })
  | .openOn context pool limit =>
    match Scratch.openOn l.arena context pool limit with
    | .error e => (.error (.refused e), l)
    | .ok (scratch, arena) => (.ok none, ⟨arena, l.opened ++ [scratch]⟩)
  | .borrow n => (l.lend n Lending.borrow).map (·.map some) id
  | .giveBack n set => (l.lend n (Lending.giveBack set)).map (·.map fun _ => none) id
  | .release n => (l.lend n Lending.release).map (·.map fun _ => none) id
  | .drop n =>
    match l.lender? n with
    | none => (.error (.fault .outOfRange), l)
    | some m => (.ok none, l.put n ⟨(m.scratch.close m.arena).1, m.scratch.drop m.arena⟩)

def run (l : Lenders) (calls : List Call) : Lenders :=
  calls.foldl (fun l call => (l.step call).2) l

def held (l : Lenders) (id : Nat) : Nat := (l.opened.map (·.holds id)).sum

def occupants (l : Lenders) (name : String) : Nat :=
  (l.opened.map fun s => (s.occupies name).toNat).sum

/-- The counters of all pools, contexts and lenders agree. -/
structure Accounts (l : Lenders) : Prop where
  inFlight : ∀ id, (l.arena.pool id).inFlight = l.held id
  quota : ∀ id, (l.arena.pool id).inFlight ≤ (l.arena.pool id).maxConcurrent
  limit : ∀ s ∈ l.opened, s.outstanding ≤ s.limit
  busy : ∀ name, l.occupants name = (l.arena.context name).busy.toNat
  stocked : l.arena.Stocked

variable {l l' : Lenders} {m m' : Lender} {n : Nat}

theorem lender?_eq_some :
    l.lender? n = some m ↔ l.opened[n]? = some m.scratch ∧ l.arena = m.arena := by
  rw [lender?, Option.map_eq_some_iff]
  constructor
  · rintro ⟨s, known, rfl⟩
    exact ⟨known, rfl⟩
  · rintro ⟨known, same⟩
    exact ⟨m.scratch, known, by rw [same]⟩

theorem put_lender (known : l.lender? n = some m) : l.put n m = l := by
  obtain ⟨known, same⟩ := lender?_eq_some.mp known
  obtain ⟨inside, value⟩ := List.getElem?_eq_some_iff.mp known
  rw [put, ← value, List.set_getElem_self, ← same]

theorem lend_of_known {α : Type} {action : Lending α} (known : l.lender? n = some m)
    {answer : Except (Failure PoolError) α} (ran : (ExceptT.run action).run m = (answer, m')) :
    l.lend n action = (answer, l.put n m') := by
  rw [lend, known]
  simp only [ran]
  rfl

theorem sum_set (part : Scratch → Nat) {opened : List Scratch} {s t : Scratch}
    (known : opened[n]? = some s) :
    ((opened.set n t).map part).sum + part s = (opened.map part).sum + part t := by
  induction opened generalizing n with
  | nil => exact absurd known nofun
  | cons first rest ih =>
    cases n with
    | zero =>
      obtain rfl := Option.some.inj known
      simp only [List.set_cons_zero, List.map_cons, List.sum_cons]
      omega
    | succ n =>
      have later := ih known
      simp only [List.set_cons_succ, List.map_cons, List.sum_cons]
      omega

theorem le_sum (part : Scratch → Nat) {opened : List Scratch} {s : Scratch}
    (inside : s ∈ opened) : part s ≤ (opened.map part).sum :=
  List.le_sum_of_mem (List.mem_map_of_mem inside)

theorem Accounts.covered (accounts : l.Accounts) (known : l.lender? n = some m) : m.Covered := by
  obtain ⟨known, same⟩ := lender?_eq_some.mp known
  intro id
  rw [← same, accounts.inFlight]
  exact le_sum (·.holds id) (List.mem_of_getElem? known)

/-- A context that a lender is open on is busy. -/
theorem Accounts.running (accounts : l.Accounts) (known : l.lender? n = some m)
    (unclosed : m.scratch.released = false) :
    (m.arena.context m.scratch.context).busy = true := by
  obtain ⟨known, same⟩ := lender?_eq_some.mp known
  have counted := le_sum (fun s => (s.occupies m.scratch.context).toNat)
    (List.mem_of_getElem? known)
  have whole := accounts.busy m.scratch.context
  rw [same] at whole
  rw [← occupants, whole, Scratch.occupies_of_open unclosed, decide_eq_true rfl] at counted
  exact Bool.toNat_eq_one.mp (Nat.le_antisymm (Bool.toNat_le _) counted)

/-- What one call can do: nothing, one more pool, one more lender on a context that was free, or
a step of one lender that keeps its accounts. -/
inductive Moves (l : Lenders) : Lenders → Prop
  | stays : Moves l l
  | adds (size maxConcurrent : Nat) :
    Moves l { l with arena := l.arena.addPool (.empty size maxConcurrent) }
  | opens {context : String} (idle : (l.arena.context context).busy = false) (pool limit : Nat) :
    Moves l ⟨l.arena.modifyContext context fun c => { c with busy := true },
      l.opened ++ [⟨pool, context, limit, 0, 0, false⟩]⟩
  | calls {n : Nat} {m m' : Lender} (known : l.lender? n = some m) (balances : m.Balances m') :
    Moves l (l.put n m')

theorem Accounts.start : start.Accounts where
  inFlight _ := rfl
  quota _ := Nat.le_refl 0
  limit _ inside := absurd inside List.not_mem_nil
  busy _ := rfl
  stocked := Arena.stocked_empty

theorem Accounts.lend_moves (accounts : l.Accounts) {α : Type} {action : Lending α}
    (orderly : Lender.Orderly action) (n : Nat) : l.Moves (l.lend n action).2 := by
  rw [lend]
  cases known : l.lender? n with
  | none => exact .stays
  | some m =>
    apply Moves.calls known
    exact orderly.balances m (accounts.covered known) (accounts.running known)

theorem Accounts.moves (accounts : l.Accounts) (call : Call) : l.Moves (l.step call).2 := by
  cases call with
  | addPool size maxConcurrent => exact .adds size maxConcurrent
  | openOn context pool limit =>
    rw [step, Scratch.openOn]
    cases idle : (l.arena.context context).busy with
    | true => exact .stays
    | false => exact .opens idle pool limit
  | borrow n => exact accounts.lend_moves Lender.orderly_borrow n
  | giveBack n set => exact accounts.lend_moves (Lender.orderly_giveBack set) n
  | release n => exact accounts.lend_moves Lender.orderly_release n
  | drop n =>
    rw [step]
    cases known : l.lender? n with
    | none => exact .stays
    | some m =>
      apply Moves.calls known
      exact Lender.balances_dropped (accounts.covered known) (accounts.running known)

theorem Accounts.put (accounts : l.Accounts) (known : l.lender? n = some m)
    (balances : m.Balances m') : (l.put n m').Accounts := by
  obtain ⟨known, same⟩ := lender?_eq_some.mp known
  -- Each total changes in one place of its list, by what the step of the lender says.
  constructor
  · intro id
    have parts := sum_set (t := m'.scratch) (·.holds id) known
    have change := balances.inFlight id
    have before := accounts.inFlight id
    rw [held, same] at before
    change _ = ((l.opened.set n m'.scratch).map (·.holds id)).sum
    dsimp only [Lenders.put] at parts ⊢
    omega
  · apply balances.quota
    rw [← same]
    exact accounts.quota
  · intro s inside
    rcases List.mem_or_eq_of_mem_set inside with old | rfl
    · exact accounts.limit s old
    · exact balances.limit (accounts.limit _ (List.mem_of_getElem? known))
  · intro name
    have parts := sum_set (t := m'.scratch) (fun s => (s.occupies name).toNat) known
    have change := balances.busy name
    have before := accounts.busy name
    rw [occupants, same] at before
    change ((l.opened.set n m'.scratch).map fun s => (s.occupies name).toNat).sum = _
    dsimp only [Lenders.put] at parts ⊢
    omega
  · apply balances.stocked
    rw [← same]
    exact accounts.stocked

theorem Accounts.adds (accounts : l.Accounts) (size maxConcurrent : Nat) :
    Accounts { l with arena := l.arena.addPool (.empty size maxConcurrent) } := by
  constructor
  · intro id
    rw [Arena.pool_addPool]
    split
    · rename_i new
      have before := accounts.inFlight id
      rw [Arena.pool_of_absent (Nat.le_of_eq new.symm)] at before
      exact before
    · exact accounts.inFlight id
  · intro id
    rw [Arena.pool_addPool]
    split
    · exact Nat.zero_le _
    · exact accounts.quota id
  · exact accounts.limit
  · exact accounts.busy
  · exact accounts.stocked.addPool (Pool.stocked_empty size maxConcurrent)

theorem Accounts.opens (accounts : l.Accounts) {context : String}
    (idle : (l.arena.context context).busy = false) (pool limit : Nat) :
    Accounts ⟨l.arena.modifyContext context fun c => { c with busy := true },
      l.opened ++ [⟨pool, context, limit, 0, 0, false⟩]⟩ := by
  constructor
  · intro id
    have before := accounts.inFlight id
    simp only [held, List.map_append, List.sum_append, Arena.pool_modifyContext] at before ⊢
    simpa [Scratch.holds] using before
  · exact accounts.quota
  · intro s inside
    rcases List.mem_append.mp inside with old | new
    · exact accounts.limit s old
    · rw [List.mem_singleton.mp new]
      exact Nat.zero_le _
  · intro name
    have before := accounts.busy name
    simp only [occupants, List.map_append, List.sum_append, Arena.context_modifyContext] at before ⊢
    rw [before]
    by_cases own : name = context
    · simp [own, idle, Scratch.occupies]
    · simp [own, Scratch.occupies, eq_comm]
  · exact (Arena.recounts_modifyContext _ _ true).stocked accounts.stocked

theorem Accounts.after (accounts : l.Accounts) (moves : l.Moves l') : l'.Accounts := by
  cases moves with
  | stays => exact accounts
  | adds size maxConcurrent => exact accounts.adds size maxConcurrent
  | opens idle pool limit => exact accounts.opens idle pool limit
  | calls known balances => exact accounts.put known balances

theorem Accounts.run (accounts : l.Accounts) (calls : List Call) : (l.run calls).Accounts := by
  induction calls generalizing l with
  | nil => exact accounts
  | cons call rest ih => exact ih (accounts.after (accounts.moves call))

def Closed (l : Lenders) (n : Nat) : Prop := ∃ s, l.opened[n]? = some s ∧ s.released = true

theorem Closed.after (closed : l.Closed n) (moves : l.Moves l') : l'.Closed n := by
  obtain ⟨s, known, released⟩ := closed
  have inside := (List.getElem?_eq_some_iff.mp known).1
  cases moves with
  | stays => exact ⟨s, known, released⟩
  | adds _ _ => exact ⟨s, known, released⟩
  | opens _ _ _ => exact ⟨s, (List.getElem?_append_left inside).trans known, released⟩
  | @calls k m m' called balances =>
    obtain ⟨found, _⟩ := lender?_eq_some.mp called
    by_cases same : k = n
    · subst same
      obtain rfl := Option.some.inj (known.symm.trans found)
      exact ⟨m'.scratch, List.getElem?_set_self inside, balances.closed released⟩
    · exact ⟨s, (List.getElem?_set_ne same).trans known, released⟩

theorem Closed.run (closed : l.Closed n) (accounts : l.Accounts) (calls : List Call) :
    (l.run calls).Closed n := by
  induction calls generalizing l with
  | nil => exact closed
  | cons call rest ih =>
    have moves := accounts.moves call
    exact ih (closed.after moves) (accounts.after moves)

theorem Closed.refuses (closed : l.Closed n) :
    (l.step (.borrow n)).1 = .error (.refused .released) ∧
      (∀ set, (l.step (.giveBack n set)).1 = .error (.refused .released)) ∧
      (l.step (.release n)).1 = .error (.refused .doubleRelease) := by
  obtain ⟨s, known, released⟩ := closed
  have found : l.lender? n = some ⟨s, l.arena⟩ := lender?_eq_some.mpr ⟨known, rfl⟩
  have borrowing : Lender.borrowRefusal? ⟨s, l.arena⟩ = some .released := if_pos released
  have returning (size : Nat) : Lender.returnRefusal? ⟨s, l.arena⟩ size = some .released :=
    if_pos released
  constructor
  · rw [step, lend, found]
    simp only [Lending.run_borrow, borrowing]
    rfl
  constructor
  · intro set
    rw [step, lend, found]
    simp only [Lending.run_giveBack, returning]
    rfl
  · rw [step, lend, found]
    simp only [Lending.run_release, if_pos released]
    rfl

theorem closed_of_release (answered : (l.step (.release n)).1 = .ok none) :
    (l.step (.release n)).2.Closed n := by
  rw [step, lend] at answered ⊢
  cases known : l.lender? n with
  | none =>
    rw [known] at answered
    exact absurd answered nofun
  | some m =>
    have inside := (List.getElem?_eq_some_iff.mp (lender?_eq_some.mp known).1).1
    rw [known] at answered
    simp only [Lending.run_release] at answered ⊢
    split at answered
    · exact absurd answered nofun
    · rename_i unclosed
      rw [if_neg unclosed]
      exact ⟨m.closed.scratch, List.getElem?_set_self inside, rfl⟩

theorem lend_refused {α : Type} {action : Lending α} (orderly : Lender.Orderly action) {n : Nat}
    {e : PoolError} (refused : (l.lend n action).1 = .error (.refused e)) :
    (l.lend n action).2 = l := by
  rw [lend] at refused ⊢
  cases known : l.lender? n with
  | none => rfl
  | some m =>
    rw [known] at refused
    change l.put n ((ExceptT.run action).run m).2 = l
    rw [orderly.refused m e refused, put_lender known]

theorem refused_of_map {α β : Type} {f : α → β} {x : Except (Failure PoolError) α} {e : PoolError}
    (refused : x.map f = .error (.refused e)) : x = .error (.refused e) := by
  cases x with
  | ok a => exact absurd refused nofun
  | error failure => exact congrArg Except.error (Except.error.inj refused)

theorem step_refused {call : Call} {e : PoolError}
    (refused : (l.step call).1 = .error (.refused e)) : (l.step call).2 = l := by
  cases call with
  | addPool size maxConcurrent => exact absurd refused nofun
  | openOn context pool limit =>
    rw [step] at refused ⊢
    split
    · rfl
    · rename_i opened
      rw [opened] at refused
      exact absurd refused nofun
  | borrow n => exact lend_refused Lender.orderly_borrow (refused_of_map refused)
  | giveBack n set => exact lend_refused (Lender.orderly_giveBack set) (refused_of_map refused)
  | release n => exact lend_refused Lender.orderly_release (refused_of_map refused)
  | drop n =>
    rw [step] at refused ⊢
    split
    · rfl
    · rename_i known
      rw [known] at refused
      exact absurd refused nofun

theorem Accounts.borrow_empty (accounts : l.Accounts) {s : Scratch} {set : ArraySet}
    (known : l.opened[n]? = some s) (lent : (l.step (.borrow n)).1 = .ok (some set)) :
    set = ArraySet.empty (l.arena.pool s.pool).size := by
  have found : l.lender? n = some ⟨s, l.arena⟩ := lender?_eq_some.mpr ⟨known, rfl⟩
  rcases Lending.borrow_cases ⟨s, l.arena⟩ with ⟨e, _, ran⟩ | ⟨answer, arena, ran, _, _, _, taken⟩
  · rw [step, lend_of_known found ran] at lent
    exact absurd lent nofun
  · rw [step, lend_of_known found ran] at lent
    apply (taken (accounts.stocked.pools s.pool)).empty
    cases answer with
    | ok other => exact congrArg Except.ok (Option.some.inj (Except.ok.inj lent))
    | error failure => exact absurd lent nofun

/-- What callers can rely on in the next call and in all later ones. -/
structure Dependable (l : Lenders) : Prop where
  /-- A call that is refused leaves everything as it was. -/
  refused : ∀ call e, (l.step call).1 = .error (.refused e) → (l.step call).2 = l
  /-- No count can pass zero: what an open lender has out is counted by its pool. -/
  covered : ∀ s ∈ l.opened, s.released = false → s.outstanding ≤ (l.arena.pool s.pool).inFlight
  /-- A set that is lent is empty. -/
  lent : ∀ n s set, l.opened[n]? = some s → (l.step (.borrow n)).1 = .ok (some set) →
    set = ArraySet.empty (l.arena.pool s.pool).size
  /-- A lender that was closed refuses from then on. -/
  released : ∀ n, (l.step (.release n)).1 = .ok none → ∀ calls,
    let later := (l.step (.release n)).2.run calls
    (later.step (.borrow n)).1 = .error (.refused .released) ∧
      (∀ set, (later.step (.giveBack n set)).1 = .error (.refused .released)) ∧
      (later.step (.release n)).1 = .error (.refused .doubleRelease)

theorem Accounts.dependable (accounts : l.Accounts) : l.Dependable where
  refused _ _ := step_refused
  covered s inside unclosed := by
    obtain ⟨n, known⟩ := List.mem_iff_getElem?.mp inside
    have covered := accounts.covered (lender?_eq_some.mpr ⟨known, rfl⟩ : _ = some ⟨s, l.arena⟩)
    have own := covered s.pool
    rw [Scratch.holds_of_open unclosed, if_pos rfl] at own
    exact own
  lent _ _ _ := accounts.borrow_empty
  released n answered calls := by
    have closed := closed_of_release answered
    have settled := accounts.after (accounts.moves (.release n))
    exact (closed.run settled calls).refuses

/-- Whatever is called in whatever order, the counters agree and callers can rely on them. -/
theorem run_accounts (calls : List Call) :
    (start.run calls).Accounts ∧ (start.run calls).Dependable := by
  have accounts := Accounts.start.run calls
  exact ⟨accounts, accounts.dependable⟩

end Lenders

end DocStore
