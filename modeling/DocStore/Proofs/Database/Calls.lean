import DocStore.Proofs.Database.Metering

/-! The counters of a registry after any calls on its databases, of callers and of processors that
make calls themselves. -/
namespace DocStore

variable {ι κ ρ : Type}

namespace Script

variable {databases : ι → Database} {contexts : κ → String} {registry : Registry} {e : Engine}

/-- The calls that a script makes, with those that their processors make, in the order in which
they end. -/
def calls (databases : ι → Database) (contexts : κ → String) :
    Script ι κ ρ → Engine → List Call
  | .answer _ _, _ => []
  | .touch change _ next, e => (next (change e)).calls databases contexts (change e)
  | .query database context q pager own inner next, e =>
    let db := databases database
    let p? := some (processor databases contexts inner)
    let effects := db.effects (contexts context) q p? pager e own
    let (result, pager', e', own') := db.run (contexts context) q p? pager e own
    effects.flatMap (·.calls fun document payload e own =>
        (inner document payload own).calls databases contexts e) ++
      [⟨db.registry, result.isOk, effects.map (·.mark)⟩] ++
      (next result pager' own').calls databases contexts e'
  | .count database context q next, e =>
    let db := databases database
    let effects := db.effects (ρ := Unit) (contexts context) q none (.start 0 none) e ()
    let (result, e') := db.count (contexts context) q e
    [⟨db.registry, result.isOk, effects.map (·.mark)⟩] ++
      (next result).calls databases contexts e'

/-- What a script does besides its queries leaves the counters of a registry as they are. -/
def Spares (registry : Registry) : Script ι κ ρ → Prop
  | .answer _ _ => True
  | .touch change _ next =>
    (∀ e, (change e).metrics registry = e.metrics registry) ∧ ∀ e, (next e).Spares registry
  | .query _ _ _ _ _ inner next =>
    (∀ document payload own, (inner document payload own).Spares registry) ∧
      ∀ result pager own, (next result pager own).Spares registry
  | .count _ _ _ next => ∀ result, (next result).Spares registry

/-- A script leaves all pools lending, and tells a registry of its calls. -/
theorem perform_tells (usable : ∀ i, (databases i).snapshot.Usable) (script : Script ι κ ρ)
    (spares : script.Spares registry) (attached : ∀ i, (databases i).Attached e) :
    e.arena.Keeps (script.perform databases contexts e).2.1.arena ∧
      e.Tells registry (script.perform databases contexts e).2.1
        (script.calls databases contexts e) := by
  -- By induction on the script: what holds of the scripts of a processor makes it tame.
  induction script generalizing e with
  | answer more own => exact ⟨Arena.Keeps.refl _, Engine.tells_nothing rfl⟩
  | touch change still next ih =>
    obtain ⟨same, later⟩ := spares
    have attached : ∀ i, (databases i).Attached (change e) := by
      intro i
      rw [Database.Attached, still]
      exact attached i
    obtain ⟨keeps, tells⟩ := ih (change e) (later _) attached
    rw [still] at keeps
    exact ⟨keeps, (Engine.tells_nothing (same e)).trans tells⟩
  | query database context q pager own inner next ihInner ihNext =>
    obtain ⟨inside, later⟩ := spares
    have each (document : Nat) (payload : View) (f : Engine) (own : ρ)
        (since : e.arena.Keeps f.arena) := ihInner document payload own
          (inside document payload own) fun i => since _ _ (attached i)
    have tame : (processor databases contexts inner).Tame e.arena :=
      fun document payload f own since => (each document payload f own since).1
    have tells : (processor databases contexts inner).Tells e.arena registry
        fun document payload f own => (inner document payload own).calls databases contexts f :=
      fun document payload f own since => (each document payload f own since).2
    have keeps := @Database.run_keeps ρ _ e (some (processor databases contexts inner))
      (usable database) (attached database) tame (contexts context) q pager own
    have told := @Database.run_tells ρ _ e (some (processor databases contexts inner)) registry _
      (usable database) (attached database) tame tells (contexts context) q pager own
    rw [Script.calls]
    cases ran : (databases database).run (contexts context) q
        (some (processor databases contexts inner)) pager e own with
    | mk result after =>
      obtain ⟨pager', e', own'⟩ := after
      rw [ran] at keeps told
      rw [perform_query ran]
      obtain ⟨keeps', told'⟩ := ihNext result pager' own' (later _ _ _) fun i =>
        keeps _ _ (attached i)
      exact ⟨keeps.trans keeps', told.trans told'⟩
  | count database context q next ih =>
    obtain ⟨keeps, told⟩ := @Database.count_tells (databases database) e registry
      (usable database) (attached database) (contexts context) q
    rw [Script.calls]
    cases ran : (databases database).count (contexts context) q e with
    | mk result e' =>
      rw [ran] at keeps told
      rw [perform_count ran]
      obtain ⟨keeps', told'⟩ := ih result (spares result) fun i => keeps _ _ (attached i)
      exact ⟨keeps.trans keeps', told.trans told'⟩

end Script

theorem Arena.Stocked.lends {a : Arena} (stocked : a.Stocked) {id : Nat}
    (inside : id < a.pools.size) : a.Lends id (a.pool id).size := by
  have known : a.pools[id]? = some (a.pool id) := by
    rw [Arena.pool, Array.getElem?_eq_getElem inside, Array.getD_eq_getD_getElem?,
      Array.getElem?_eq_getElem inside]
    rfl
  exact ⟨a.pool id, known, rfl, (stocked.pools id).sizes⟩

/-- Unless a call that fails has one, nothing of a kind stays untold. No refusal does. -/
theorem Call.told_eq_total {registry : Registry} {calls : List Call} {mark : Mark}
    (only : ∀ c ∈ calls, c.registry = registry → c.well = false → mark ∈ c.marks →
      mark = .refused) :
    told registry calls mark = total (calls.filter (·.registry = registry)) mark := by
  induction calls with
  | nil => rfl
  | cons c rest ih =>
    obtain ⟨now, later⟩ := List.forall_mem_cons.mp only
    have alone : told registry [c] mark = total ([c].filter (·.registry = registry)) mark := by
      rw [told_singleton, total]
      by_cases own : c.registry = registry
      · rw [List.filter_cons_of_pos (by simpa using own), List.filter_nil, List.flatMap_singleton]
        by_cases tells : c.well = true ∨ mark = .refused
        · rw [if_pos ⟨own, tells⟩]
        · rw [if_neg fun both => tells both.2, eq_comm, List.count_eq_zero]
          obtain ⟨ill, other⟩ := not_or.mp tells
          exact fun inside => other (now own (Bool.eq_false_iff.mpr ill) inside)
      · rw [if_neg fun both => own both.1, List.filter_cons_of_neg (by simpa using own)]
        rfl
    rw [← List.singleton_append, told_append, ih later, alone, List.filter_append, total, total,
      total, List.flatMap_append, List.count_append]

namespace Handles

variable {h : Handles ι κ} {files : ι → View} {settings : ι → Settings} {e : Engine}

theorem Lives.attached (lives : h.Lives files settings e)
    (placed : ∀ i, (files i).start + File.headerLength < sizeLimit) (i : ι) :
    (h.databases i).Attached e := by
  obtain ⟨origin, registry, before, after, past, opened, since⟩ := lives.opened i
  obtain ⟨file, _, _, pool, arena⟩ := Database.openWith_eq_ok opened
  have rests := lives.rests placed i
  have inside : h.pool i < e.arena.pools.size := by
    refine Nat.lt_of_lt_of_le ?_ since.ages.count
    rw [Handles.pool, pool, arena, Arena.addPool, Array.size_push]
    exact Nat.lt_succ_self _
  have lends := rests.stocked.lends inside
  rw [rests.pool.size] at lends
  exact lends

/-- A registry is told of the calls on its databases, also of those that processors make: of every
refusal by a quota, and of the documents and sets of the calls that end well. These are all of
them, unless a call that fails has handed out a document or was lent a set. -/
theorem registry_told (placed : ∀ i, (files i).start + File.headerLength < sizeLimit)
    (lives : h.Lives files settings e) (registry : Registry) {script : Script ι κ ρ}
    (spares : script.Spares registry) (mark : Mark) :
    let after := (script.perform h.databases h.contexts e).2.1
    let calls := script.calls h.databases h.contexts e
    (after.metrics registry).gauge mark =
      (e.metrics registry).gauge mark + UInt64.ofNat (Call.told registry calls mark) ∧
    ((∀ c ∈ calls, c.registry = registry → c.well = false → mark ∈ c.marks → mark = .refused) →
      (after.metrics registry).gauge mark = (e.metrics registry).gauge mark +
        UInt64.ofNat (Call.total (calls.filter (·.registry = registry)) mark)) := by
  intro after calls
  have tells : e.Tells registry after calls :=
    (script.perform_tells (fun i => (lives.rests placed i).usable) spares (lives.attached placed)).2
  refine ⟨tells mark, ?_⟩
  intro only
  rw [← Call.told_eq_total only]
  exact tells mark

end Handles

namespace Database

def countingAll : Script Unit Unit Nat :=
  .query () () .everything (.start 0 none) 0 counting fun _ _ own => .answer true own

/-- A registry is told of two documents that were handed out. The two counts that were asked for
on the way were refused, since the context was busy, before anything had happened in them. -/
theorem registry_told_unsorted : ∃ (db : Database) (opened : Engine),
    openMemory unsortedFile trusting (.own 0) .start = (.ok db, opened) ∧
      countingAll.Spares (.own 0) ∧
      (countingAll.calls (fun _ => db) (fun _ => "c") opened).map (·.well) = [false, false, true] ∧
      let after := (countingAll.perform (fun _ => db) (fun _ => "c") opened).2.1
      (after.metrics (.own 0)).gauge .handed = 2 := by
  have seen : (openMemory unsortedFile trusting (.own 0) .start).1.toOption.any (fun db =>
      let opened := (openMemory unsortedFile trusting (.own 0) .start).2
      let calls := countingAll.calls (fun _ => db) (fun _ => "c") opened
      calls.map (·.well) = [false, false, true] ∧ (opened.metrics (.own 0)).gauge .handed = 0 ∧
      (∀ c ∈ calls, c.registry = .own 0 → c.well = false → .handed ∈ c.marks →
        Mark.handed = .refused) ∧
      Call.total (calls.filter (·.registry = .own 0)) .handed = 2) = true := by
    decide +kernel
  cases made : openMemory unsortedFile trusting (.own 0) .start with
  | mk result opened =>
    rw [made] at seen
    cases result with
    | error failure => contradiction
    | ok db =>
      obtain ⟨ends, fresh, only, two⟩ := of_decide_eq_true seen
      have spares : countingAll.Spares (.own 0) :=
        ⟨fun _ _ _ _ => trivial, fun _ _ _ => trivial⟩
      have told := (Handles.registry_told (fun _ => File.placed_ofBytes unsortedFile)
        (lives_of_openMemory made .now "c") (.own 0) spares .handed).2 only
      refine ⟨db, opened, rfl, spares, ends, ?_⟩
      rw [two, fresh] at told
      exact told

def tiedDocuments : List Document :=
  [⟨[⟨"a", [1], ⟨.full, .varied⟩⟩], some []⟩, ⟨[], some []⟩, ⟨[], some []⟩]

def tiedFile : Bytes :=
  ((Builder.ofDocuments tiedDocuments).toOption.bind fun b =>
    (b.finish .empty).1.toOption).elim [] SealedDatabase.bytes

def sparing : Settings := { trusting with setsPerQuery := 1 }

/-- All documents, ordered three times by one field, for a processor that takes every one. The
documents without a value go into the only set that the query may hold, and then into another. -/
def orderedThrice : Script Unit Unit Unit :=
  .query () () ⟨[], List.replicate 3 ⟨"a", .ascending⟩, 0, none⟩ (.start 0 none) ()
    (fun _ _ own => .answer true own) fun _ _ own => .answer true own

/-- A registry is not told of the document that was handed out, nor of the set that was lent,
before a quota refused another set. -/
theorem refused_untold : ∃ (db : Database) (opened : Engine),
    openMemory tiedFile sparing (.own 0) .start = (.ok db, opened) ∧
      let calls := orderedThrice.calls (fun _ => db) (fun _ => "c") opened
      let after := (orderedThrice.perform (fun _ => db) (fun _ => "c") opened).2.1
      (∀ c ∈ calls, c.registry = .own 0) ∧
      Call.total calls .handed = 1 ∧ (after.metrics (.own 0)).gauge .handed = 0 ∧
      Call.total calls .borrowed = 1 ∧ (after.metrics (.own 0)).gauge .borrowed = 0 ∧
      Call.total calls .refused = 1 ∧ (after.metrics (.own 0)).gauge .refused = 1 := by
  have seen : (openMemory tiedFile sparing (.own 0) .start).1.toOption.any (fun db =>
      let opened := (openMemory tiedFile sparing (.own 0) .start).2
      let calls := orderedThrice.calls (fun _ => db) (fun _ => "c") opened
      let after := (orderedThrice.perform (fun _ => db) (fun _ => "c") opened).2.1
      (∀ c ∈ calls, c.registry = .own 0) ∧
      Call.total calls .handed = 1 ∧ (after.metrics (.own 0)).gauge .handed = 0 ∧
      Call.total calls .borrowed = 1 ∧ (after.metrics (.own 0)).gauge .borrowed = 0 ∧
      Call.total calls .refused = 1 ∧ (after.metrics (.own 0)).gauge .refused = 1) = true := by
    decide +kernel
  cases made : openMemory tiedFile sparing (.own 0) .start with
  | mk result opened =>
    rw [made] at seen
    cases result with
    | error failure => contradiction
    | ok db => exact ⟨db, opened, rfl, of_decide_eq_true seen⟩

end Database

end DocStore
