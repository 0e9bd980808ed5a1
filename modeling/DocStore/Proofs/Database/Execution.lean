import DocStore.Database.Execution
import DocStore.Proofs.Query.Emitting
import DocStore.Proofs.Query.Plans
import DocStore.Proofs.Query.Selecting

/-! Running queries on an open database, from the state of the engine before to that after. -/
namespace DocStore.Database

variable {ρ : Type} {db : Database} {e e' : Engine} {q : Query} {processor : Processor ρ}
  {truthful : Prop} {passes : String → ValueTest → Nat → Prop} {source : Source} {s : Run ρ}
  {base : Arena}

section Ends

variable {pager : Pager} {own : ρ} {context : String}

def opened (db : Database) (context : String) (pager : Pager) (e : Engine) (own : ρ) : Run ρ where
  scratch := ⟨db.pool, context, db.setsPerQuery, 0, 0, false⟩
  engine := { e with arena := e.arena.modifyContext context fun c => { c with busy := true } }
  pager := pager
  own := own

def reported (db : Database) (start : Pager) (e : Engine) (result : Except (Failure PoolError) Outcome)
    (ended : Run ρ) : Engine :=
  match result with
  | .ok outcome => db.reportExecuted outcome.matched (ended.pager.emitted - start.emitted)
      ended.scratch.borrowed (ended.close.journal.clock - e.journal.clock) ended.close
  | .error (.refused error) => db.reportRefusal error ended.close
  | .error (.fault _) => ended.close

theorem arena_reported (result : Except (Failure PoolError) Outcome) (ended : Run ρ) :
    (db.reported pager e result ended).arena = ended.close.arena := by
  cases result with
  | ok outcome => rfl
  | error failure =>
    cases failure with
    | refused error =>
      change (db.reportRefusal error ended.close).arena = _
      rw [reportRefusal]
      split <;> rfl
    | fault cause => rfl

theorem start_busy {pool limit : Nat} (busy : (e.arena.context context).busy = true) :
    Run.start e context pool limit pager own = .error .contextBusy := by
  rw [Run.start, Scratch.openOn, if_pos busy]
  rfl

theorem run_busy (busy : (e.arena.context context).busy = true)
    (processor? : Option (Processor ρ)) : db.run context q processor? pager e own =
      (.error (.refused .contextBusy), pager, e, own) := by
  rw [run, start_busy busy]
  rfl

theorem count_busy (busy : (e.arena.context context).busy = true) :
    db.count context q e = (.error (.refused .contextBusy), e) := by
  rw [count, run_busy busy]
  rfl

theorem start_idle (idle : (e.arena.context context).busy = false) :
    Run.start e context db.pool db.setsPerQuery pager own =
      .ok (db.opened context pager e own) := by
  rw [Run.start, Scratch.openOn, if_neg (by simp [idle])]
  rfl

theorem run_idle (idle : (e.arena.context context).busy = false)
    {processor? : Option (Processor ρ)} {result : Except (Failure PoolError) Outcome}
    {ended : Run ρ} (ran : (ExceptT.run (steps db.snapshot.source q processor?)).run
      (db.opened context pager e own) = (result, ended)) :
    db.run context q processor? pager e own =
      (result, ended.pager, db.reported pager e result ended, ended.own) := by
  have ran : ExceptT.run (steps db.snapshot.source q processor?)
    (db.opened context pager e own) = (result, ended) := ran
  have taken : (db.opened context pager e own).pager.emitted ≤ ended.pager.emitted := by
    simpa only [StateT.run, ran] using
      Plan.emitted_steps db.snapshot.source q processor? (db.opened context pager e own)
  rw [run, start_idle idle]
  simp only [ran, subSizes_of_le (show pager.emitted ≤ _ from taken)]
  cases result with
  | ok outcome => rfl
  | error failure => cases failure <;> rfl

end Ends

/-- The pool of a database is there and lends sets for its documents. -/
def Attached (db : Database) (e : Engine) : Prop := e.arena.Lends db.pool db.documents

def Matches (documents : Nat) (passes : String → ValueTest → Nat → Prop) (q : Query) (i : Nat) :
    Prop :=
  Condition.AllHold documents passes i q.conditions

theorem steps_counts (answers : source.Answers truthful passes)
    (lends : s.Lends source.documents) :
    Meets (steps source q (none : Option (Processor ρ))) s
      (fun outcome s' => s.Quiet s' ∧ ∃ selection : Selection,
        selection.Selects source.documents (Matches source.documents passes q) ∧
          outcome.matched = selection.docs.toList.length)
      fun _ s' => s.Quiet s' := by
  unfold steps
  refine Meets.bind.mpr ((Selection.ofConditions_meets answers q.conditions lends).mono ?_
    fun _ _ => id)
  rintro selection t ⟨quiet, out, selects⟩
  rw [Meets.bind, Meets.pure]
  refine Meets.bind.mpr ((Selection.recycle_meets (by omega)).mono ?_ fun _ _ => quiet.trans)
  rintro _ u ⟨returned, _⟩
  exact Meets.pure.mpr ⟨quiet.trans returned, selection, selects, DocSet.cardinality_eq _⟩

theorem steps_delivers (answers : source.Answers truthful passes) (sound : source.Sound)
    (tame : processor.Tame base) (stands : s.Stands base source.documents) :
    Meets (steps source q (some processor)) s
      (fun outcome s' => ∃ selection : Selection,
        selection.Selects source.documents (Matches source.documents passes q) ∧
          outcome.matched = selection.docs.toList.length ∧
          Emits source processor s (Emission.listing source q.orders selection.docs)
            outcome.completed s')
      fun _ s' => ∃ front more, (∀ i ∈ front, i < source.documents) ∧
        Emits source processor s front more s' := by
  unfold steps
  refine Meets.bind.mpr ((Selection.ofConditions_meets answers q.conditions stands.lends).mono ?_ ?_)
  · rintro selection t ⟨quiet, out, selects⟩
    have inside : ∀ i ∈ Emission.listing source q.orders selection.docs, i < source.documents :=
      fun i listed => ((selects.members i).mp
        (Emission.listing_inside sound q.orders selects.readable selects.size listed)).1
    refine Meets.bind.mpr ((Emission.emit_delivers sound tame q.orders selects.readable
      selects.size (quiet.stands stands)).mono ?_ ?_)
    · rintro more u ⟨emits, same⟩
      have whole := emits.after_quiet quiet
      refine Meets.bind.mpr ((Selection.recycle_meets (by omega)).mono ?_ ?_)
      · rintro _ v ⟨returned, _⟩
        exact Meets.pure.mpr
          ⟨selection, selects, DocSet.cardinality_eq _, whole.before_quiet returned⟩
      · intro _ v returned
        exact ⟨_, more, inside, whole.before_quiet returned⟩
    · rintro _ u ⟨front, more, stretch, emits⟩
      exact ⟨front, more, fun i listed => inside i (stretch.subset listed),
        emits.after_quiet quiet⟩
  · intro _ t quiet
    exact ⟨[], true, fun _ none => absurd none List.not_mem_nil, Emits.nothing quiet⟩

theorem keeps_drop (scratch : Scratch) (a : Arena) : a.Keeps (scratch.drop a) := by
  unfold Scratch.drop
  split
  · exact Arena.Keeps.refl a
  · exact Arena.Keeps.trans (b := a.modifyPool scratch.pool (·.unreserve scratch.outstanding))
      (Arena.keeps_modifyPool rfl fun _ => Or.inl) (Arena.keeps_modifyContext _ _)

/-- A query either finds its context busy, or its steps ran from a state that differs from the
engine only in the context. -/
theorem run_cases {processor? : Option (Processor ρ)} {pager pager' : Pager} {own own' : ρ}
    {context : String} {result : Except (Failure PoolError) Outcome}
    {ended : Run ρ → Outcome → Run ρ → Prop} {refused : Run ρ → Run ρ → Prop}
    (attached : db.Attached e)
    (steps_meet : ∀ s : Run ρ, s.Stands e.arena db.documents →
      Meets (steps db.snapshot.source q processor?) s (ended s) fun _ => refused s)
    (ran : db.run context q processor? pager e own = (result, pager', e', own')) :
    (∃ error, result = .error (.refused error) ∧ pager' = pager ∧ own' = own ∧
      e.arena.Keeps e'.arena) ∨
    ∃ s t s' : Run ρ, s.engine = e ∧ s.pager = pager ∧ s.own = own ∧ s.Quiet t ∧
      s'.pager = pager' ∧ s'.own = own' ∧ s'.engine.arena.Keeps e'.arena ∧
      ((∃ outcome, result = .ok outcome ∧ ended t outcome s') ∨
        ∃ error, result = .error (.refused error) ∧ refused t s') := by
  cases busy : (e.arena.context context).busy with
  | true =>
    rw [run_busy busy] at ran
    obtain ⟨rfl, rfl, rfl, rfl⟩ := ran
    exact Or.inl ⟨_, rfl, rfl, rfl, Arena.Keeps.refl e.arena⟩
  | false =>
    let s : Run ρ := {
      scratch := ⟨db.pool, context, db.setsPerQuery, 0, 0, false⟩
      engine := e, pager, own }
    have quiet : s.Quiet (db.opened context pager e own) :=
      ⟨Arena.keeps_modifyContext _ _, rfl, rfl, rfl, rfl⟩
    have met := steps_meet (db.opened context pager e own)
      (quiet.stands ⟨Arena.Keeps.refl e.arena, attached⟩)
    cases stepped : (ExceptT.run (steps db.snapshot.source q processor?)).run
      (db.opened context pager e own) with
    | mk answer s' =>
      rw [Meets, stepped] at met
      rw [run_idle busy stepped] at ran
      obtain ⟨rfl, rfl, rfl, rfl⟩ := ran
      refine Or.inr ⟨s, _, s', rfl, rfl, rfl, quiet, rfl, rfl, ?_, ?_⟩
      · rw [arena_reported]
        exact keeps_drop _ _
      · cases result with
        | ok outcome => exact Or.inl ⟨outcome, rfl, met⟩
        | error failure =>
          cases failure with
          | refused error => exact Or.inr ⟨error, rfl, met⟩
          | fault cause => exact met.elim

variable {pager pager' : Pager} {own own' : ρ} {context : String}
  {result : Except (Failure PoolError) Outcome}

/-- A query without a processor is refused or counts the documents that it matches. -/
theorem run_counts (answers : db.snapshot.source.Answers truthful passes)
    (attached : db.Attached e)
    (ran : db.run context q (none : Option (Processor ρ)) pager e own = (result, pager', e', own')) :
    e.arena.Keeps e'.arena ∧ ((∃ error, result = .error (.refused error)) ∨
      ∃ (outcome : Outcome) (selection : Selection), result = .ok outcome ∧
        selection.Selects db.documents (Matches db.documents passes q) ∧
        outcome.matched = selection.docs.toList.length) := by
  rcases run_cases attached (fun s stands => steps_counts answers stands.lends) ran with
    ⟨error, refused, _, _, keeps⟩ | ⟨s, t, s', rfl, _, _, quiet, _, _, after, ended⟩
  · exact ⟨keeps, Or.inl ⟨error, refused⟩⟩
  · rcases ended with ⟨outcome, done, later, selection, selects, matched⟩ | ⟨error, refused, later⟩
    · exact ⟨quiet.keeps.trans (later.keeps.trans after),
        Or.inr ⟨outcome, selection, done, selects, matched⟩⟩
    · exact ⟨quiet.keeps.trans (later.keeps.trans after), Or.inl ⟨error, refused⟩⟩

/-- A query with a processor calls it with existing documents and their payloads. Unless it is
refused, the calls go through the page of the listing of the documents that it matches. -/
theorem run_serves (answers : db.snapshot.source.Answers truthful passes)
    (sound : db.snapshot.source.Sound) (tame : processor.Tame e.arena) (attached : db.Attached e)
    (ran : db.run context q (some processor) pager e own = (result, pager', e', own')) :
    e.arena.Keeps e'.arena ∧ ∃ calls willing last,
      Calls processor (e, own) calls willing (last, own') ∧ last.arena.Keeps e'.arena ∧
      (∀ call ∈ calls, call.1 < db.documents ∧ db.payload? call.1 = .ok (some call.2)) ∧
      ((∃ error, result = .error (.refused error)) ∨
        ∃ (outcome : Outcome) (selection : Selection), result = .ok outcome ∧
          selection.Selects db.documents (Matches db.documents passes q) ∧
          outcome.matched = selection.docs.toList.length ∧
          pager.Pages (Emission.listing db.snapshot.source q.orders selection.docs)
            (calls.map (·.1)) willing outcome.completed pager') := by
  rcases run_cases attached (fun s stands => steps_delivers answers sound tame stands) ran with
    ⟨error, refused, _, rfl, keeps⟩ |
      ⟨s, t, s', rfl, rfl, rfl, quiet, rfl, rfl, after, ended⟩
  · exact ⟨keeps, [], true, e, Calls.none (Arena.Keeps.refl _), keeps, by simp,
      Or.inl ⟨error, refused⟩⟩
  · rcases ended with ⟨outcome, done, selection, selects, matched, emits⟩ |
      ⟨error, refused, front, more, inside, emits⟩
    · have whole := emits.after_quiet quiet
      obtain ⟨calls, willing, made, payloads, pages⟩ := whole.calls
      refine ⟨(whole.keeps tame (Arena.Keeps.refl _)).1.trans after, calls, willing, _, made,
        after, ?_, Or.inr ⟨outcome, selection, done, selects, matched, pages⟩⟩
      intro call called
      have listed := Pager.mem_of_mem_page (pages.stretch.subset (List.mem_map_of_mem called))
      have member := Emission.listing_inside sound q.orders selects.readable selects.size listed
      exact ⟨((selects.members _).mp member).1, payloads call called⟩
    · have whole := emits.after_quiet quiet
      obtain ⟨calls, willing, made, payloads, pages⟩ := whole.calls
      refine ⟨(whole.keeps tame (Arena.Keeps.refl _)).1.trans after, calls, willing, _, made,
        after, ?_, Or.inl ⟨error, refused⟩⟩
      intro call called
      have listed := Pager.mem_of_mem_page (pages.stretch.subset (List.mem_map_of_mem called))
      exact ⟨inside _ listed, payloads call called⟩

end DocStore.Database
