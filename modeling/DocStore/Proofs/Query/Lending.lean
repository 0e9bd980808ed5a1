import DocStore.Proofs.Bits.Sets
import DocStore.Query.Running

/-! Borrowing and giving back while a query runs. Lending moves nothing but the lender, the pools
and the contexts, and a pool keeps lending empty sets of its size. -/
namespace DocStore

namespace Pool

variable {p : Pool} {set other : ArraySet}

theorem size_keep (p : Pool) (set : ArraySet) : (p.keep set).size = p.size := by
  unfold keep
  split <;> rfl

theorem mem_free_keep (inside : other ∈ (p.keep set).free) : other ∈ p.free ∨ other = set := by
  unfold keep at inside
  split at inside
  · exact (List.mem_cons.mp inside).symm
  · exact Or.inl inside

end Pool

namespace Arena

/-- A pool lends sets of a size. -/
def Lends (a : Arena) (id size : Nat) : Prop :=
  ∃ pool, a.pools[id]? = some pool ∧ pool.size = size ∧ ∀ set ∈ pool.free, set.size = size

def Keeps (a b : Arena) : Prop := ∀ id size, a.Lends id size → b.Lends id size

variable {a b c : Arena} {id size : Nat}

theorem Keeps.refl (a : Arena) : a.Keeps a := fun _ _ => id

theorem Keeps.trans (first : a.Keeps b) (second : b.Keeps c) : a.Keeps c := fun id size lends =>
  second id size (first id size lends)

theorem Lends.pool_eq (lends : a.Lends id size) :
    (a.pool id).size = size ∧ ∀ set ∈ (a.pool id).free, set.size = size := by
  obtain ⟨pool, known, sizes, free⟩ := lends
  have same : a.pool id = pool := by
    rw [Arena.pool, Array.getD_eq_getD_getElem?, known]
    rfl
  exact same ▸ ⟨sizes, free⟩

theorem size_pool_modifyPool {f : Pool → Pool} (sizes : ∀ pool, (f pool).size = pool.size) :
    ((a.modifyPool id f).pool id).size = (a.pool id).size := by
  simp only [pool, modifyPool, Array.getD_eq_getD_getElem?, Array.getElem?_modify, if_true]
  cases a.pools[id]? with
  | none => rfl
  | some pool => exact sizes pool

theorem keeps_modifyContext (name : String) (f : QueryContext → QueryContext) :
    a.Keeps (a.modifyContext name f) := fun _ _ => id

theorem keeps_addPool (pool : Pool) : a.Keeps (a.addPool pool) := by
  rintro id size ⟨known, listed, rest⟩
  have inside : id < a.pools.size := (Array.getElem?_eq_some_iff.mp listed).1
  exact ⟨known, by rw [addPool, Array.getElem?_push_lt inside, ← listed]; simp [inside], rest⟩

theorem keeps_modifyPool {f : Pool → Pool} (sizes : (f (a.pool id)).size = (a.pool id).size)
    (free : ∀ set ∈ (f (a.pool id)).free, set ∈ (a.pool id).free ∨ set.size = (a.pool id).size) :
    a.Keeps (a.modifyPool id f) := by
  intro other size lends
  by_cases same : id = other
  · subst same
    obtain ⟨ownSize, ownFree⟩ := lends.pool_eq
    obtain ⟨pool, known, _⟩ := lends
    have own : a.pool id = pool := by
      rw [Arena.pool, Array.getD_eq_getD_getElem?, known]
      rfl
    refine ⟨f pool, by simp [modifyPool, Array.getElem?_modify, known], ?_, fun set inside => ?_⟩
    · rw [← own, sizes, ownSize]
    · rw [← own] at inside
      exact (free set inside).elim (ownFree set) fun known => known.trans ownSize
  · obtain ⟨pool, known, rest⟩ := lends
    exact ⟨pool, by simp [modifyPool, Array.getElem?_modify, same, known], rest⟩

end Arena

namespace Lending

variable {l : Lender} {size : Nat} {set : ArraySet} {post : Unit → Lender → Prop}
  {refused : PoolError → Lender → Prop}

/-- What a step of a lender leaves as it is. -/
structure Moves (l l' : Lender) : Prop where
  keeps : l.arena.Keeps l'.arena
  pool : l'.scratch.pool = l.scratch.pool

theorem pool_meets {post : Pool → Lender → Prop} :
    Meets pool l post refused ↔ post (l.arena.pool l.scratch.pool) l := Iff.rfl

theorem context_meets {post : QueryContext → Lender → Prop} :
    Meets context l post refused ↔ post (l.arena.context l.scratch.context) l := Iff.rfl

theorem modifyPool_meets {f : Pool → Pool} : Meets (modifyPool f) l post refused ↔
    post () { l with arena := l.arena.modifyPool l.scratch.pool f } := Iff.rfl

theorem modifyContext_meets {f : QueryContext → QueryContext} :
    Meets (modifyContext f) l post refused ↔
      post () { l with arena := l.arena.modifyContext l.scratch.context f } := Iff.rfl

theorem modifyScratch_meets {f : Scratch → Scratch} :
    Meets (modifyScratch f) l post refused ↔ post () { l with scratch := f l.scratch } := Iff.rfl

theorem takeSet_meets (lends : l.arena.Lends l.scratch.pool size) (small : size + 63 < sizeLimit) :
    Meets takeSet l (fun set l' => set = ArraySet.empty size ∧ l.arena.Keeps l'.arena ∧
      l'.scratch = l.scratch) refused := by
  obtain ⟨sizes, free⟩ := lends.pool_eq
  unfold takeSet
  rw [Meets.bind, pool_meets, Meets.bind, context_meets]
  split
  · rename_i set kept
    have fits := List.find?_some kept
    rw [decide_eq_true_eq, sizes] at fits
    rw [Meets.bind, modifyContext_meets, Meets.pure]
    exact ⟨by rw [ArraySet.clear_eq_empty, fits], Arena.keeps_modifyContext _ _, rfl⟩
  · split
    · rename_i set rest known
      rw [Meets.bind, modifyPool_meets, Meets.pure]
      refine ⟨?_, Arena.keeps_modifyPool rfl fun other inside => Or.inl ?_, rfl⟩
      · rw [ArraySet.clear_eq_empty, free set (known ▸ List.mem_cons_self)]
      · exact known ▸ List.mem_cons_of_mem _ inside
    · rw [sizes, Meets.lift (ArraySet.allocate_eq small)]
      exact ⟨rfl, Arena.Keeps.refl _, rfl⟩

theorem borrow_meets (lends : l.arena.Lends l.scratch.pool size) (small : size + 63 < sizeLimit) :
    Meets borrow l (fun set l' => set = ArraySet.empty size ∧ Moves l l' ∧
      l'.scratch.outstanding = l.scratch.outstanding + 1) fun _ l' => l' = l := by
  unfold borrow
  rw [Meets.bind, Meets.get]
  dsimp only
  by_cases released : l.scratch.released = true
  · rw [if_pos released, Meets.bind, Meets.refuse]
  rw [if_neg released]
  by_cases full : l.scratch.limit ≤ l.scratch.outstanding
  · rw [if_pos full, Meets.bind, Meets.refuse]
  rw [if_neg full, Meets.bind, pool_meets]
  by_cases many : (l.arena.pool l.scratch.pool).maxConcurrent ≤ (l.arena.pool l.scratch.pool).inFlight
  · rw [if_pos many, Meets.bind, Meets.refuse]
  rw [if_neg many, Meets.bind, modifyPool_meets, Meets.bind, modifyScratch_meets]
  have reserved : l.arena.Keeps (l.arena.modifyPool l.scratch.pool Pool.reserve) :=
    Arena.keeps_modifyPool rfl fun _ => Or.inl
  refine (takeSet_meets (reserved _ _ lends) small).mono ?_ fun _ _ => id
  rintro set l' ⟨empty, keeps, same⟩
  exact ⟨empty, ⟨reserved.trans keeps, by rw [same]⟩, by rw [same]⟩

theorem giveBack_meets (out : 0 < l.scratch.outstanding) :
    Meets (giveBack set) l (fun _ l' => Moves l l' ∧
      l'.scratch.outstanding + 1 = l.scratch.outstanding) fun _ l' => l' = l := by
  unfold giveBack
  rw [Meets.bind, Meets.get]
  dsimp only
  by_cases released : l.scratch.released = true
  · rw [if_pos released, Meets.bind, Meets.refuse]
  rw [if_neg released, Meets.bind, pool_meets]
  by_cases foreign : set.size ≠ (l.arena.pool l.scratch.pool).size
  · rw [if_pos foreign, Meets.bind, Meets.refuse]
  rw [if_neg foreign, if_neg (Nat.ne_of_gt out), Meets.bind, Meets.lift (subSizes_of_le out),
    Meets.bind, modifyScratch_meets, Meets.bind, modifyPool_meets, Meets.bind, context_meets]
  have fits := Decidable.not_not.mp foreign
  have returned : l.arena.Keeps (l.arena.modifyPool l.scratch.pool (·.unreserve 1)) :=
    Arena.keeps_modifyPool rfl fun _ => Or.inl
  have count : l.scratch.outstanding - 1 + 1 = l.scratch.outstanding := by omega
  split
  · exact ⟨⟨returned.trans (Arena.keeps_modifyContext _ _), rfl⟩, count⟩
  · refine ⟨⟨returned.trans (Arena.keeps_modifyPool ?_ fun other inside => ?_), rfl⟩, count⟩
    · exact Pool.size_keep _ _
    · refine (Pool.mem_free_keep inside).imp id ?_
      rintro rfl
      have same := @Arena.size_pool_modifyPool l.arena l.scratch.pool (·.unreserve 1) fun _ => rfl
      exact fits.trans same.symm

end Lending

variable {ρ α : Type}

namespace Run

structure Quiet (s s' : Run ρ) : Prop where
  keeps : s.engine.arena.Keeps s'.engine.arena
  pool : s'.scratch.pool = s.scratch.pool
  pager : s'.pager = s.pager
  own : s'.own = s.own
  engine : s'.engine = { s.engine with arena := s'.engine.arena }

/-- The pool of a query lends sets of a size. -/
def Lends (s : Run ρ) (size : Nat) : Prop := s.engine.arena.Lends s.scratch.pool size

structure Stands (s : Run ρ) (base : Arena) (size : Nat) : Prop where
  since : base.Keeps s.engine.arena
  lends : s.Lends size

variable {s t u : Run ρ} {size : Nat} {base : Arena}

theorem Quiet.refl (s : Run ρ) : s.Quiet s := ⟨Arena.Keeps.refl _, rfl, rfl, rfl, rfl⟩

theorem Quiet.trans (first : s.Quiet t) (second : t.Quiet u) : s.Quiet u where
  keeps := first.keeps.trans second.keeps
  pool := second.pool.trans first.pool
  pager := second.pager.trans first.pager
  own := second.own.trans first.own
  engine := by rw [second.engine, first.engine]

theorem Quiet.lends (quiet : s.Quiet t) (lends : s.Lends size) : t.Lends size := by
  rw [Lends, quiet.pool]
  exact quiet.keeps _ _ lends

theorem Quiet.stands (quiet : s.Quiet t) (stands : s.Stands base size) : t.Stands base size :=
  ⟨stands.since.trans quiet.keeps, quiet.lends stands.lends⟩

end Run

namespace Running

variable {s : Run ρ} {size : Nat} {set : ArraySet}

theorem lend_meets {action : Lending α} {post : α → Run ρ → Prop}
    {refused : PoolError → Run ρ → Prop} : Meets (lend action) s post refused ↔
      Meets action ⟨s.scratch, s.engine.arena⟩
        (fun a l => post a { s with scratch := l.scratch, engine := { s.engine with arena := l.arena } })
        fun e l => refused e { s with
          scratch := l.scratch, engine := { s.engine with arena := l.arena } } := by
  have ran : (ExceptT.run (lend action)).run s =
      ((ExceptT.run action).run ⟨s.scratch, s.engine.arena⟩).map id fun l => { s with
        scratch := l.scratch, engine := { s.engine with arena := l.arena } } := rfl
  unfold Meets
  rw [ran]
  rcases (ExceptT.run action).run ⟨s.scratch, s.engine.arena⟩ with ⟨(_ | _) | _, _⟩ <;> rfl

theorem borrow_meets (lends : s.Lends size) (small : size + 63 < sizeLimit) :
    Meets borrow s (fun set s' => set = ArraySet.empty size ∧ s.Quiet s' ∧
      s'.scratch.outstanding = s.scratch.outstanding + 1) fun _ s' => s.Quiet s' := by
  rw [borrow, lend_meets]
  refine (@Lending.borrow_meets ⟨s.scratch, s.engine.arena⟩ size lends small).mono ?_ ?_
  · rintro set l ⟨empty, moves, count⟩
    exact ⟨empty, ⟨moves.keeps, moves.pool, rfl, rfl, rfl⟩, count⟩
  · rintro _ _ rfl
    exact Run.Quiet.refl s

theorem giveBack_meets (out : 0 < s.scratch.outstanding) :
    Meets (giveBack set) s (fun _ s' => s.Quiet s' ∧
      s'.scratch.outstanding + 1 = s.scratch.outstanding) fun _ s' => s.Quiet s' := by
  rw [giveBack, lend_meets]
  refine (@Lending.giveBack_meets ⟨s.scratch, s.engine.arena⟩ set out).mono ?_ ?_
  · rintro _ l ⟨moves, count⟩
    exact ⟨⟨moves.keeps, moves.pool, rfl, rfl, rfl⟩, count⟩
  · rintro _ _ rfl
    exact Run.Quiet.refl s

end Running

end DocStore
