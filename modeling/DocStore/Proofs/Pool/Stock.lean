import DocStore.Proofs.Query.Lending

/-! The sets that pools and contexts keep, and what one call of a lender does. The call is refused
and leaves everything as it was, or it counts one set and then only moves kept sets. -/
namespace DocStore

namespace QueryContext

variable {c kept : QueryContext} {set : ArraySet}

theorem size_of_lastOfSize? {size : Nat} (known : c.lastOfSize? size = some set) :
    set.size = size := by simpa using List.find?_some known

theorem cached_dropLastOfSize_le (c : QueryContext) (size other : Nat) :
    (c.dropLastOfSize size).cached other ≤ c.cached other := List.eraseP_sublist.countP_le

theorem cached_le_of_keep? (known : c.keep? set = some kept) {size : Nat}
    (few : c.cached size ≤ cacheLimit) : kept.cached size ≤ cacheLimit := by
  rw [keep?] at known
  split at known
  · rename_i room
    obtain rfl := Option.some.inj known
    rw [cached, List.countP_cons]
    split
    · rename_i same
      obtain rfl := of_decide_eq_true same
      exact room
    · exact few
  · exact absurd known nofun

theorem busy_of_keep? (known : c.keep? set = some kept) : kept.busy = c.busy := by
  rw [keep?] at known
  split at known
  · rw [← Option.some.inj known]
  · exact absurd known nofun

end QueryContext

namespace Pool

variable {p : Pool} {set : ArraySet}

structure Stocked (p : Pool) : Prop where
  room : p.free.length ≤ p.maxConcurrent
  sizes : ∀ set ∈ p.free, set.size = p.size

theorem stocked_empty (size maxConcurrent : Nat) : (Pool.empty size maxConcurrent).Stocked where
  room := Nat.zero_le _
  sizes _ inside := absurd inside List.not_mem_nil

theorem unreserve_default (count : Nat) : (default : Pool).unreserve count = default := by
  rw [unreserve, Pool.mk.injEq]
  exact ⟨rfl, rfl, Nat.zero_sub count, rfl⟩

theorem keep_eq (p : Pool) (set : ArraySet) :
    p.keep set = { p with free := (p.keep set).free } := by
  rw [keep]
  split <;> rfl

theorem Stocked.keep (stocked : p.Stocked) (fits : set.size = p.size) : (p.keep set).Stocked := by
  constructor
  · rw [Pool.keep]
    split
    · assumption
    · exact stocked.room
  · intro other inside
    rw [size_keep]
    exact (mem_free_keep inside).elim (stocked.sizes other) fun same => same ▸ fits

end Pool

namespace Arena

variable {a b c : Arena} {id other : Nat} {name : String}

theorem pool_of_absent (absent : a.pools.size ≤ id) : a.pool id = default := by
  rw [pool, Array.getD_eq_getD_getElem?, Array.getElem?_eq_none absent]
  rfl

/-- A pool that is not there counts as an empty one, which a change has to leave as it is. -/
theorem pool_modifyPool {f : Pool → Pool} (absent : a.pools.size ≤ id → f default = default) :
    (a.modifyPool id f).pool other = if other = id then f (a.pool id) else a.pool other := by
  simp only [pool, modifyPool, Array.getD_eq_getD_getElem?, Array.getElem?_modify]
  by_cases same : other = id
  · subst same
    rw [if_pos rfl, if_pos rfl]
    cases known : a.pools[other]? with
    | none => exact (absent (Array.getElem?_eq_none_iff.mp known)).symm
    | some pool => rfl
  · rw [if_neg (Ne.symm same), if_neg same]

/-- Writing sets off never makes a count pass zero, also in a pool that is not there. -/
theorem inFlight_unreserve (a : Arena) (id count other : Nat) :
    ((a.modifyPool id (·.unreserve count)).pool other).inFlight =
      (a.pool other).inFlight - if other = id then count else 0 := by
  rw [pool_modifyPool fun _ => Pool.unreserve_default count]
  split
  · rename_i same
    rw [same]
    rfl
  · rfl

theorem pool_addPool (a : Arena) (added : Pool) (id : Nat) :
    (a.addPool added).pool id = if id = a.pools.size then added else a.pool id := by
  simp only [pool, addPool, Array.getD_eq_getD_getElem?, Array.getElem?_push]
  split <;> rfl

@[simp] theorem pool_modifyContext (a : Arena) (name : String) (f : QueryContext → QueryContext)
    (id : Nat) : (a.modifyContext name f).pool id = a.pool id := rfl

@[simp] theorem size_modifyPool (a : Arena) (id : Nat) (f : Pool → Pool) :
    (a.modifyPool id f).pools.size = a.pools.size := Array.size_modify

structure Stocked (a : Arena) : Prop where
  pools : ∀ id, (a.pool id).Stocked
  contexts : ∀ name size, (a.context name).cached size ≤ QueryContext.cacheLimit

theorem stocked_empty : Arena.empty.Stocked where
  pools _ := Pool.stocked_empty 0 0
  contexts _ _ := Nat.zero_le _

theorem Stocked.addPool (stocked : a.Stocked) {added : Pool} (fresh : added.Stocked) :
    (a.addPool added).Stocked where
  contexts := stocked.contexts
  pools id := by
    rw [pool_addPool]
    split
    · exact fresh
    · exact stocked.pools id

/-- From one arena to the other only kept sets have moved. -/
structure Restocks (a b : Arena) : Prop where
  count : b.pools.size = a.pools.size
  counters : ∀ id, b.pool id = { a.pool id with free := (b.pool id).free }
  busy : ∀ name, (b.context name).busy = (a.context name).busy
  stocked : a.Stocked → b.Stocked

theorem Restocks.refl (a : Arena) : a.Restocks a where
  count := rfl
  counters _ := rfl
  busy _ := rfl
  stocked := id

theorem Restocks.trans (first : a.Restocks b) (second : b.Restocks c) : a.Restocks c where
  count := second.count.trans first.count
  counters id := by rw [second.counters, first.counters]
  busy name := (second.busy name).trans (first.busy name)
  stocked stocked := second.stocked (first.stocked stocked)

theorem Restocks.inFlight (moves : a.Restocks b) (id : Nat) :
    (b.pool id).inFlight = (a.pool id).inFlight := by rw [moves.counters]

theorem Restocks.maxConcurrent (moves : a.Restocks b) (id : Nat) :
    (b.pool id).maxConcurrent = (a.pool id).maxConcurrent := by rw [moves.counters]

theorem Restocks.size (moves : a.Restocks b) (id : Nat) :
    (b.pool id).size = (a.pool id).size := by rw [moves.counters]

theorem restocks_modifyContext {f : QueryContext → QueryContext}
    (busy : (f (a.context name)).busy = (a.context name).busy)
    (few : ∀ size, (a.context name).cached size ≤ QueryContext.cacheLimit →
      (f (a.context name)).cached size ≤ QueryContext.cacheLimit) :
    a.Restocks (a.modifyContext name f) where
  count := rfl
  counters _ := rfl
  busy other := by
    rw [context_modifyContext]
    split
    · rename_i same
      rw [same, busy]
    · rfl
  stocked stocked := by
    constructor
    · exact stocked.pools
    · intro other size
      rw [context_modifyContext]
      split
      · exact few size (stocked.contexts name size)
      · exact stocked.contexts other size

theorem restocks_modifyPool {f : Pool → Pool} (absent : a.pools.size ≤ id → f default = default)
    (counters : f (a.pool id) = { a.pool id with free := (f (a.pool id)).free })
    (stocked : (a.pool id).Stocked → (f (a.pool id)).Stocked) :
    a.Restocks (a.modifyPool id f) where
  count := size_modifyPool a id f
  busy _ := rfl
  counters other := by
    rw [pool_modifyPool absent]
    split
    · rename_i same
      rw [same]
      exact counters
    · rfl
  stocked whole := by
    constructor
    · intro other
      rw [pool_modifyPool absent]
      split
      · exact stocked (whole.pools id)
      · exact whole.pools other
    · exact whole.contexts

/-- From one arena to the other only counters and busy contexts have changed. -/
structure Recounts (a b : Arena) : Prop where
  pools : ∀ id, b.pool id = { a.pool id with inFlight := (b.pool id).inFlight }
  contexts : ∀ name, b.context name = { a.context name with busy := (b.context name).busy }

theorem Recounts.trans (first : a.Recounts b) (second : b.Recounts c) : a.Recounts c where
  pools id := by rw [second.pools, first.pools]
  contexts name := by rw [second.contexts, first.contexts]

theorem Recounts.stocked (changes : a.Recounts b) (stocked : a.Stocked) : b.Stocked := by
  constructor
  · intro id
    rw [changes.pools]
    exact ⟨(stocked.pools id).room, (stocked.pools id).sizes⟩
  · intro name size
    rw [changes.contexts]
    exact stocked.contexts name size

theorem Recounts.size (changes : a.Recounts b) (id : Nat) :
    (b.pool id).size = (a.pool id).size := by rw [changes.pools]

theorem Recounts.maxConcurrent (changes : a.Recounts b) (id : Nat) :
    (b.pool id).maxConcurrent = (a.pool id).maxConcurrent := by rw [changes.pools]

theorem recounts_modifyPool (a : Arena) (id : Nat) {f : Pool → Pool}
    (counters : ∀ p, f p = { p with inFlight := (f p).inFlight }) :
    a.Recounts (a.modifyPool id f) where
  contexts _ := rfl
  pools other := by
    simp only [pool, modifyPool, Array.getD_eq_getD_getElem?, Array.getElem?_modify]
    split
    · cases a.pools[other]? with
      | none => rfl
      | some pool => exact counters pool
    · rfl

theorem recounts_modifyContext (a : Arena) (name : String) (busy : Bool) :
    a.Recounts (a.modifyContext name fun c => { c with busy }) where
  pools _ := rfl
  contexts other := by
    rw [context_modifyContext]
    split
    · rename_i same
      rw [same]
    · rfl

end Arena

namespace Lender

def lent (l : Lender) : Lender where
  scratch := { l.scratch with
    outstanding := l.scratch.outstanding + 1, borrowed := l.scratch.borrowed + 1 }
  arena := l.arena.modifyPool l.scratch.pool .reserve

def returned (l : Lender) : Lender where
  scratch := { l.scratch with outstanding := l.scratch.outstanding - 1 }
  arena := l.arena.modifyPool l.scratch.pool (·.unreserve 1)

def closed (l : Lender) : Lender := ⟨(l.scratch.close l.arena).1, (l.scratch.close l.arena).2⟩

def borrowRefusal? (l : Lender) : Option PoolError :=
  if l.scratch.released then
    some .released
  else if l.scratch.limit ≤ l.scratch.outstanding then
    some (.exhausted .query l.scratch.limit)
  else if (l.arena.pool l.scratch.pool).maxConcurrent ≤ (l.arena.pool l.scratch.pool).inFlight then
    some (.exhausted .process (l.arena.pool l.scratch.pool).maxConcurrent)
  else
    none

def returnRefusal? (l : Lender) (size : Nat) : Option PoolError :=
  if l.scratch.released then
    some .released
  else if size ≠ (l.arena.pool l.scratch.pool).size then
    some (.sizeMismatch (l.arena.pool l.scratch.pool).size size)
  else if l.scratch.outstanding = 0 then
    some .notBorrowed
  else
    none

variable {l : Lender} {size : Nat}

theorem borrowRefusal?_eq_none : l.borrowRefusal? = none ↔
    l.scratch.released = false ∧ l.scratch.outstanding < l.scratch.limit ∧
      (l.arena.pool l.scratch.pool).inFlight < (l.arena.pool l.scratch.pool).maxConcurrent := by
  rw [borrowRefusal?]
  by_cases released : l.scratch.released = true
  · simp [released]
  by_cases full : l.scratch.limit ≤ l.scratch.outstanding
  · simp [released, full, Nat.not_lt.mpr full]
  · simp [released, full, Nat.not_le.mp full]

theorem returnRefusal?_eq_none : l.returnRefusal? size = none ↔
    l.scratch.released = false ∧ size = (l.arena.pool l.scratch.pool).size ∧
      l.scratch.outstanding ≠ 0 := by
  rw [returnRefusal?]
  by_cases released : l.scratch.released = true
  · simp [released]
  by_cases fits : size = (l.arena.pool l.scratch.pool).size
  · simp [released, fits]
  · simp [released, fits]

theorem recounts_lent (l : Lender) : l.arena.Recounts l.lent.arena :=
  Arena.recounts_modifyPool _ _ fun _ => rfl

theorem recounts_returned (l : Lender) : l.arena.Recounts l.returned.arena :=
  Arena.recounts_modifyPool _ _ fun _ => rfl

theorem recounts_closed (l : Lender) : l.arena.Recounts l.closed.arena :=
  (Arena.recounts_modifyPool _ _ fun _ => rfl).trans (Arena.recounts_modifyContext _ _ false)

/-- A pool that has room for one more set is there. -/
theorem pool_lent (free : l.borrowRefusal? = none) (id : Nat) : l.lent.arena.pool id =
    if id = l.scratch.pool then (l.arena.pool l.scratch.pool).reserve else l.arena.pool id := by
  apply Arena.pool_modifyPool
  intro absent
  have room := (borrowRefusal?_eq_none.mp free).2.2
  rw [Arena.pool_of_absent absent] at room
  exact absurd room (Nat.not_lt_zero _)

theorem pool_returned (l : Lender) (id : Nat) : l.returned.arena.pool id =
    if id = l.scratch.pool then (l.arena.pool l.scratch.pool).unreserve 1
    else l.arena.pool id := Arena.pool_modifyPool fun _ => rfl

end Lender

namespace Lending

variable {l : Lender} {set : ArraySet}

theorem run_get (l : Lender) : (ExceptT.run (get : Lending Lender)).run l = (.ok l, l) := rfl

theorem run_refuse {α : Type} (e : PoolError) (l : Lender) :
    (ExceptT.run (refuse e : Lending α)).run l = (.error (.refused e), l) := rfl

theorem run_pool (l : Lender) :
    (ExceptT.run pool).run l = (.ok (l.arena.pool l.scratch.pool), l) := rfl

theorem run_context (l : Lender) :
    (ExceptT.run context).run l = (.ok (l.arena.context l.scratch.context), l) := rfl

def shelve (set : ArraySet) : Lending Unit := do
  match (← context).keep? set with
  | some kept => modifyContext fun _ => kept
  | none => modifyPool (·.keep set)

theorem run_borrow (l : Lender) : (ExceptT.run borrow).run l = match l.borrowRefusal? with
    | some e => (.error (.refused e), l)
    | none => (ExceptT.run takeSet).run l.lent := by
  rw [borrow, Meets.run_bind, run_get, Lender.borrowRefusal?]
  dsimp only
  by_cases released : l.scratch.released = true
  · rw [if_pos released, if_pos released, Meets.run_bind, run_refuse]
  rw [if_neg released, if_neg released]
  by_cases full : l.scratch.limit ≤ l.scratch.outstanding
  · rw [if_pos full, if_pos full, Meets.run_bind, run_refuse]
  rw [if_neg full, if_neg full, Meets.run_bind, run_pool]
  dsimp only
  by_cases many : (l.arena.pool l.scratch.pool).maxConcurrent ≤
      (l.arena.pool l.scratch.pool).inFlight
  · rw [if_pos many, if_pos many, Meets.run_bind, run_refuse]
  · rw [if_neg many, if_neg many]
    rfl

theorem run_giveBack (l : Lender) (set : ArraySet) :
    (ExceptT.run (giveBack set)).run l = match l.returnRefusal? set.size with
      | some e => (.error (.refused e), l)
      | none => (ExceptT.run (shelve set)).run l.returned := by
  rw [giveBack, Meets.run_bind, run_get, Lender.returnRefusal?]
  dsimp only
  by_cases released : l.scratch.released = true
  · rw [if_pos released, if_pos released, Meets.run_bind, run_refuse]
  rw [if_neg released, if_neg released, Meets.run_bind, run_pool]
  dsimp only
  by_cases foreign : set.size ≠ (l.arena.pool l.scratch.pool).size
  · rw [if_pos foreign, if_pos foreign, Meets.run_bind, run_refuse]
  rw [if_neg foreign, if_neg foreign]
  by_cases spare : l.scratch.outstanding = 0
  · rw [if_pos spare, if_pos spare, Meets.run_bind, run_refuse]
  · rw [if_neg spare, if_neg spare, subSizes_of_le (Nat.one_le_iff_ne_zero.mpr spare)]
    rfl

theorem run_release (l : Lender) : (ExceptT.run release).run l =
    if l.scratch.released then (.error (.refused .doubleRelease), l)
    else (.ok (), l.closed) := by
  rw [release, Meets.run_bind, run_get]
  dsimp only
  by_cases released : l.scratch.released = true
  · rw [if_pos released, if_pos released, Meets.run_bind, run_refuse]
  · rw [if_neg released, if_neg released]
    rfl

/-- A set of a size was looked for: the one that is found is empty, and one of a size that
memory can be asked for is found. -/
structure Found (size : Nat) (answer : Except (Failure PoolError) ArraySet) : Prop where
  empty : ∀ set, answer = .ok set → set = ArraySet.empty size
  small : size + 63 < sizeLimit → ∃ set, answer = .ok set

theorem Found.eq {size : Nat} {answer : Except (Failure PoolError) ArraySet}
    (found : Found size answer) (small : size + 63 < sizeLimit) :
    answer = .ok (ArraySet.empty size) := by
  obtain ⟨set, known⟩ := found.small small
  rw [known, found.empty set known]

theorem found_ok {set : ArraySet} {size : Nat} (empty : set = ArraySet.empty size) :
    Found size (.ok set) where
  empty := by
    rintro _ ⟨⟩
    exact empty
  small _ := ⟨set, rfl⟩

/-- Only kept sets move when a set is looked for. -/
theorem takeSet_restocks (l : Lender) : ∃ answer arena,
    (ExceptT.run takeSet).run l = (answer, { l with arena }) ∧ l.arena.Restocks arena ∧
      (∀ e, answer ≠ .error (.refused e)) ∧
      ((l.arena.pool l.scratch.pool).Stocked →
        Found (l.arena.pool l.scratch.pool).size answer) := by
  -- A set that the context keeps is taken first, then one of the pool; else one is made.
  rw [takeSet, Meets.run_bind, run_pool]
  dsimp only
  rw [Meets.run_bind, run_context]
  dsimp only
  split
  · rename_i set known
    refine ⟨.ok set.clear, _, rfl, Arena.restocks_modifyContext rfl fun size few => ?_, nofun, ?_⟩
    · exact Nat.le_trans (QueryContext.cached_dropLastOfSize_le _ _ size) few
    · intro _
      apply found_ok
      rw [ArraySet.clear_eq_empty, QueryContext.size_of_lastOfSize? known]
  · split
    · rename_i set rest known
      refine ⟨.ok set.clear, _, rfl, Arena.restocks_modifyPool ?_ rfl ?_, nofun, ?_⟩
      · intro absent
        rw [Arena.pool_of_absent absent] at known
        exact absurd known nofun
      · intro stocked
        constructor
        · have room := stocked.room
          rw [known, List.length_cons] at room
          exact Nat.le_of_succ_le room
        · intro other inside
          exact stocked.sizes other (known ▸ List.mem_cons_of_mem _ inside)
      · intro stocked
        apply found_ok
        rw [ArraySet.clear_eq_empty, stocked.sizes set (known ▸ List.mem_cons_self)]
    · cases allocated : ArraySet.allocate (l.arena.pool l.scratch.pool).size with
      | error cause =>
        refine ⟨.error (.fault cause), _, rfl, Arena.Restocks.refl _, nofun, fun _ => ⟨nofun, ?_⟩⟩
        intro small
        rw [ArraySet.allocate_eq small] at allocated
        exact absurd allocated nofun
      | ok set =>
        refine ⟨.ok set, _, rfl, Arena.Restocks.refl _, nofun, fun _ => found_ok ?_⟩
        obtain ⟨_, _, same⟩ := bind_eq_ok.mp allocated
        exact (Except.ok.inj same).symm

theorem shelve_restocks (l : Lender) (fits : set.size = (l.arena.pool l.scratch.pool).size) :
    ∃ arena, (ExceptT.run (shelve set)).run l = (.ok (), { l with arena }) ∧
      l.arena.Restocks arena := by
  rw [shelve, Meets.run_bind, run_context]
  dsimp only
  split
  · rename_i kept known
    refine ⟨_, rfl, Arena.restocks_modifyContext (QueryContext.busy_of_keep? known) ?_⟩
    intro size few
    exact QueryContext.cached_le_of_keep? known few
  · refine ⟨_, rfl, Arena.restocks_modifyPool (fun _ => rfl) (Pool.keep_eq _ set) ?_⟩
    intro stocked
    exact stocked.keep fits

/-- A lender refuses and stays as it is, or one more set is out and only kept sets have moved
besides. -/
theorem borrow_cases (l : Lender) :
    (∃ e, l.borrowRefusal? = some e ∧ (ExceptT.run borrow).run l = (.error (.refused e), l)) ∨
      ∃ answer arena, (ExceptT.run borrow).run l = (answer, ⟨l.lent.scratch, arena⟩) ∧
        l.borrowRefusal? = none ∧ l.lent.arena.Restocks arena ∧
        (∀ e, answer ≠ .error (.refused e)) ∧
        ((l.arena.pool l.scratch.pool).Stocked →
          Found (l.arena.pool l.scratch.pool).size answer) := by
  have ran := run_borrow l
  cases free : l.borrowRefusal? with
  | some e =>
    rw [free] at ran
    exact Or.inl ⟨e, rfl, ran⟩
  | none =>
    rw [free] at ran
    obtain ⟨answer, arena, took, moves, noRefusal, found⟩ := takeSet_restocks l.lent
    have same : l.lent.arena.pool l.lent.scratch.pool = (l.arena.pool l.scratch.pool).reserve := by
      rw [Lender.pool_lent free]
      exact if_pos rfl
    rw [same] at found
    refine Or.inr ⟨answer, arena, ran.trans took, rfl, moves, noRefusal, ?_⟩
    intro stocked
    exact found ⟨stocked.room, stocked.sizes⟩

/-- A lender refuses and stays as it is, or one set less is out and only kept sets have moved
besides. -/
theorem giveBack_cases (l : Lender) (set : ArraySet) :
    (∃ e, l.returnRefusal? set.size = some e ∧
      (ExceptT.run (giveBack set)).run l = (.error (.refused e), l)) ∨
      ∃ arena, (ExceptT.run (giveBack set)).run l = (.ok (), ⟨l.returned.scratch, arena⟩) ∧
        l.returnRefusal? set.size = none ∧ l.returned.arena.Restocks arena := by
  have ran := run_giveBack l set
  cases free : l.returnRefusal? set.size with
  | some e =>
    rw [free] at ran
    exact Or.inl ⟨e, rfl, ran⟩
  | none =>
    rw [free] at ran
    have fits : set.size = (l.returned.arena.pool l.returned.scratch.pool).size := by
      rw [Lender.pool_returned]
      change _ = (ite (l.scratch.pool = l.scratch.pool) _ _ : Pool).size
      rw [if_pos rfl]
      exact (Lender.returnRefusal?_eq_none.mp free).2.1
    obtain ⟨arena, shelved, moves⟩ := shelve_restocks l.returned fits
    exact Or.inr ⟨arena, ran.trans shelved, rfl, moves⟩

end Lending

end DocStore
