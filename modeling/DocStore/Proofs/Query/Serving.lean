import DocStore.Proofs.Query.Lending
import DocStore.Query.Source

/-! What a processor sees. A listing is offered document by document, the page takes a stretch of
it, and the processor may end it at any call; between calls only pools and contexts change. -/
namespace DocStore

variable {ρ : Type}

/-- The stretch of a listing that a page takes. -/
def Pager.page {α : Type} (p : Pager) (listing : List α) : List α :=
  match p.remaining with
  | none => listing.drop p.toSkip
  | some count => (listing.drop p.toSkip).take count

namespace Running

variable {s : Run ρ} {post : Bool → Run ρ → Prop} {refused : PoolError → Run ρ → Prop}

theorem offer_meets {admission : Admission} {pager : Pager} {post : Admission → Run ρ → Prop}
    (known : s.pager.offer = (admission, pager)) :
    Meets offer s post refused ↔ post admission { s with pager } := by
  have ran : (ExceptT.run offer).run s =
      (.ok s.pager.offer.1, { s with pager := s.pager.offer.2 }) := rfl
  rw [known] at ran
  rw [Meets, ran]

theorem process_meets {processor : Processor ρ} {document : Nat} {payload : View} {more : Bool}
    {engine : Engine} {own : ρ}
    (known : processor document payload (s.engine, s.own) = (more, engine, own)) :
    Meets (process processor document payload) s post refused ↔
      post more { s with engine, own } := by
  have ran : (ExceptT.run (process processor document payload)).run s =
      ((processor document payload (s.engine, s.own)).map .ok
        fun held => { s with engine := held.1, own := held.2 }) := rfl
  rw [known] at ran
  rw [Meets, ran]
  exact Iff.rfl

theorem isDone_meets : Meets isDone s post refused ↔ post s.pager.isDone s := Iff.rfl

end Running

namespace Pager

variable {α : Type} {p next : Pager} {first : α} {rest : List α}

@[simp] theorem page_nil : p.page ([] : List α) = [] := by
  unfold page
  split <;> simp

theorem mem_of_mem_page {listing : List α} {a : α} (taken : a ∈ p.page listing) : a ∈ listing := by
  unfold page at taken
  split at taken
  · exact List.mem_of_mem_drop taken
  · exact List.mem_of_mem_drop (List.mem_of_mem_take taken)

theorem page_full (done : p.isDone = true) (listing : List α) : p.page listing = [] := by
  have none : p.remaining = some 0 := by simpa [isDone] using done
  simp [page, none]

theorem page_prefix (p : Pager) (listing others : List α) :
    p.page listing <+: p.page (listing ++ others) := by
  unfold page
  split
  · rw [List.drop_append]
    exact List.prefix_append _ _
  · rw [List.drop_append, List.take_append]
    exact List.prefix_append _ _

theorem page_map {β : Type} (p : Pager) (tag : α → β) (listing : List α) :
    p.page (listing.map tag) = (p.page listing).map tag := by
  unfold page
  split <;> simp [List.map_drop, List.map_take]

theorem offer_stop (offered : p.offer = (.stop, next)) : p.isDone = true ∧ next = p := by
  obtain ⟨_ | skip, _ | _ | left, emitted⟩ := p <;> cases offered <;> exact ⟨rfl, rfl⟩

theorem page_skip (offered : p.offer = (.skip, next)) :
    p.page (first :: rest) = next.page rest ∧ next.emitted = p.emitted := by
  obtain ⟨_ | skip, _ | _ | left, emitted⟩ := p <;> cases offered <;> exact ⟨rfl, rfl⟩

theorem page_take (offered : p.offer = (.take, next)) :
    p.page (first :: rest) = first :: next.page rest ∧ next.emitted = p.emitted + 1 := by
  obtain ⟨_ | skip, _ | _ | left, emitted⟩ := p <;> cases offered <;> exact ⟨rfl, rfl⟩

/-- What a page takes of a listing, and a later pager of whatever follows it. Documents that no
call ended are all that the page takes of the listing. -/
structure Pages (p : Pager) (listing taken : List Nat) (willing more : Bool) (next : Pager) :
    Prop where
  stretch : taken <+: p.page listing
  whole : willing = true → ∀ {β : Type} (tag : Nat → β) (others : List β),
    p.page (listing.map tag ++ others) = taken.map tag ++ next.page others
  emitted : next.emitted = p.emitted + taken.length
  going : more = true → willing = true
  ended : more = false → willing = false ∨ next.isDone = true

variable {document : Nat} {listing taken : List Nat} {willing more : Bool} {last : Pager}

theorem Pages.all (pages : p.Pages listing taken willing more next) (going : willing = true) :
    taken = p.page listing := by
  have whole := pages.whole going id []
  rw [List.map_id, List.map_id, List.append_nil, page_nil, List.append_nil] at whole
  exact whole.symm

theorem pages_nothing (p : Pager) : p.Pages [] [] true true p where
  stretch := List.nil_prefix
  whole _ _ _ _ := rfl
  emitted := rfl
  going := id
  ended := nofun

theorem pages_full (done : p.isDone = true) (listing : List Nat) :
    p.Pages listing [] true false p where
  stretch := List.nil_prefix
  whole _ _ _ _ := by rw [page_full done, page_full done, List.map_nil, List.nil_append]
  emitted := rfl
  going _ := rfl
  ended _ := Or.inr done

theorem Pages.skip (offered : p.offer = (.skip, next))
    (pages : next.Pages listing taken willing more last) :
    p.Pages (document :: listing) taken willing more last where
  stretch := by
    rw [(page_skip offered).1]
    exact pages.stretch
  whole going _ tag others := by
    rw [List.map_cons, List.cons_append, (page_skip offered).1]
    exact pages.whole going tag others
  emitted := by rw [pages.emitted, (@page_skip Nat _ _ document [] offered).2]
  going := pages.going
  ended := pages.ended

theorem Pages.take (offered : p.offer = (.take, next))
    (pages : next.Pages listing taken willing more last) :
    p.Pages (document :: listing) (document :: taken) willing more last where
  stretch := by
    rw [(page_take offered).1]
    exact List.cons_prefix_cons.mpr ⟨rfl, pages.stretch⟩
  whole going _ tag others := by
    rw [List.map_cons, List.cons_append, (page_take offered).1, pages.whole going tag others]
    rfl
  emitted := by
    rw [pages.emitted, (@page_take Nat _ _ document [] offered).2, List.length_cons]
    omega
  going := pages.going
  ended := pages.ended

theorem pages_stop (offered : p.offer = (.take, next)) :
    p.Pages (document :: listing) [document] false false next where
  stretch := by
    rw [(page_take offered).1]
    exact List.cons_prefix_cons.mpr ⟨rfl, List.nil_prefix⟩
  whole := nofun
  emitted := (@page_take Nat _ _ document [] offered).2
  going := nofun
  ended _ := Or.inl rfl

end Pager

/-- Calls of a processor with documents and their payloads, and whether the last one asked for
more. -/
inductive Calls (processor : Processor ρ) :
    Engine × ρ → List (Nat × View) → Bool → Engine × ρ → Prop where
  | none {e : Engine} {own : ρ} {arena : Arena} (keeps : e.arena.Keeps arena) :
    Calls processor (e, own) [] true ({ e with arena }, own)
  | more {e : Engine} {own : ρ} {arena : Arena} {document : Nat} {payload : View}
    {next last : Engine × ρ} {rest : List (Nat × View)} {willing : Bool}
    (keeps : e.arena.Keeps arena)
    (called : processor document payload ({ e with arena }, own) = (true, next))
    (later : Calls processor next rest willing last) :
    Calls processor (e, own) ((document, payload) :: rest) willing last
  | stop {e last : Engine} {own own' : ρ} {arena arena' : Arena} {document : Nat} {payload : View}
    (keeps : e.arena.Keeps arena)
    (called : processor document payload ({ e with arena }, own) = (false, last, own'))
    (after : last.arena.Keeps arena') :
    Calls processor (e, own) [(document, payload)] false ({ last with arena := arena' }, own')

/-- A processor leaves all pools of `base` lending as they did, on every engine that comes after. It
has only queries to change them with, and queries leave them so. -/
def Processor.Tame (processor : Processor ρ) (base : Arena) : Prop :=
  ∀ (document : Nat) (payload : View) (e : Engine) (own : ρ), base.Keeps e.arena →
    e.arena.Keeps (processor document payload (e, own)).2.1.arena

theorem Processor.Tame.later {processor : Processor ρ} {base later : Arena}
    (tame : processor.Tame base) (since : base.Keeps later) : processor.Tame later :=
  fun document payload e own after => tame document payload e own (since.trans after)

def Processor.listing : Processor (List Nat) := fun document _ (e, listed) =>
  (true, e, listed ++ [document])

theorem Processor.tame_listing (base : Arena) : Processor.listing.Tame base :=
  fun _ _ e _ _ => Arena.Keeps.refl e.arena

/-- From one state to another the documents of a listing are offered to the page and, as far as
it takes them, handed to a processor. The flag tells whether more may be offered. -/
inductive Emits (source : Source) (processor : Processor ρ) :
    Run ρ → List Nat → Bool → Run ρ → Prop where
  | nothing {s s' : Run ρ} (quiet : s.Quiet s') : Emits source processor s [] true s'
  | full {s s' : Run ρ} {docs : List Nat} (done : s.pager.isDone = true) (quiet : s.Quiet s') :
    Emits source processor s docs false s'
  | skip {s s' : Run ρ} {document : Nat} {docs : List Nat} {more : Bool} {pager : Pager}
    (offered : s.pager.offer = (.skip, pager))
    (later : Emits source processor { s with pager } docs more s') :
    Emits source processor s (document :: docs) more s'
  | take {s t s' : Run ρ} {document : Nat} {docs : List Nat} {more : Bool} {pager : Pager}
    {payload : View} {engine : Engine} {own : ρ} (offered : s.pager.offer = (.take, pager))
    (stored : source.payload? document = .ok (some payload)) (quiet : s.Quiet t)
    (called : processor document payload (t.engine, t.own) = (true, engine, own))
    (later : Emits source processor { t with pager, engine, own } docs more s') :
    Emits source processor s (document :: docs) more s'
  | stop {s t s' : Run ρ} {document : Nat} {docs : List Nat} {pager : Pager}
    {payload : View} {engine : Engine} {own : ρ} (offered : s.pager.offer = (.take, pager))
    (stored : source.payload? document = .ok (some payload)) (quiet : s.Quiet t)
    (called : processor document payload (t.engine, t.own) = (false, engine, own))
    (after : { t with pager, engine, own }.Quiet s') :
    Emits source processor s (document :: docs) false s'

namespace Emits

variable {source : Source} {processor : Processor ρ} {s t u : Run ρ} {docs others : List Nat}
  {more : Bool} {base : Arena}

theorem refl : Emits source processor s [] true s := nothing (Run.Quiet.refl s)

theorem after_quiet (quiet : s.Quiet t) (emits : Emits source processor t docs more u) :
    Emits source processor s docs more u := by
  induction emits generalizing s with
  | nothing later => exact nothing (quiet.trans later)
  | full done later => exact full (quiet.pager ▸ done) (quiet.trans later)
  | skip offered _ ih =>
    obtain ⟨keeps, pool, pager, own, engine⟩ := quiet
    rw [pager] at offered
    exact skip offered (ih ⟨keeps, pool, rfl, own, engine⟩)
  | take offered stored before called later _ =>
    exact take (quiet.pager ▸ offered) stored (quiet.trans before) called later
  | stop offered stored before called later =>
    exact stop (quiet.pager ▸ offered) stored (quiet.trans before) called later

theorem before_quiet (emits : Emits source processor s docs more t) (quiet : t.Quiet u) :
    Emits source processor s docs more u := by
  induction emits with
  | nothing before => exact nothing (before.trans quiet)
  | full done before => exact full done (before.trans quiet)
  | skip offered _ ih => exact skip offered (ih quiet)
  | take offered stored before called _ ih => exact take offered stored before called (ih quiet)
  | stop offered stored before called after =>
    exact stop offered stored before called (after.trans quiet)

theorem append (first : Emits source processor s docs true t)
    (second : Emits source processor t others more u) :
    Emits source processor s (docs ++ others) more u := by
  generalize going : true = flag at first
  induction first with
  | nothing quiet => exact second.after_quiet quiet
  | full => contradiction
  | skip offered _ ih => exact skip offered (ih second going)
  | take offered stored quiet called _ ih => exact take offered stored quiet called (ih second going)
  | stop => contradiction

theorem append_ended (emits : Emits source processor s docs false t) (others : List Nat) :
    Emits source processor s (docs ++ others) false t := by
  generalize ended : false = flag at emits
  induction emits with
  | nothing => contradiction
  | full done quiet => exact full done quiet
  | skip offered _ ih => exact skip offered (ih ended)
  | take offered stored quiet called _ ih => exact take offered stored quiet called (ih ended)
  | stop offered stored quiet called after => exact stop offered stored quiet called after

theorem keeps (tame : processor.Tame base) (emits : Emits source processor s docs more t)
    (since : base.Keeps s.engine.arena) :
    s.engine.arena.Keeps t.engine.arena ∧ t.scratch.pool = s.scratch.pool := by
  induction emits with
  | nothing quiet => exact ⟨quiet.keeps, quiet.pool⟩
  | full _ quiet => exact ⟨quiet.keeps, quiet.pool⟩
  | skip _ _ ih => exact ih since
  | @take _ t _ document _ _ _ payload _ _ _ _ quiet called _ ih =>
    have before := since.trans quiet.keeps
    have kept := tame document payload t.engine t.own before
    rw [called] at kept
    obtain ⟨after, pool⟩ := ih (before.trans kept)
    exact ⟨(quiet.keeps.trans kept).trans after, pool.trans quiet.pool⟩
  | @stop _ t _ document _ _ payload _ _ _ _ quiet called after =>
    have kept := tame document payload t.engine t.own (since.trans quiet.keeps)
    rw [called] at kept
    exact ⟨(quiet.keeps.trans kept).trans after.keeps, after.pool.trans quiet.pool⟩

theorem stands {size : Nat} (tame : processor.Tame base)
    (emits : Emits source processor s docs more t) (stands : s.Stands base size) :
    t.Stands base size := by
  obtain ⟨keeps, pool⟩ := emits.keeps tame stands.since
  refine ⟨stands.since.trans keeps, ?_⟩
  rw [Run.Lends, pool]
  exact keeps _ _ stands.lends

/-- The calls that an emission makes are the stretch that the page takes, up to the call that
asks for no more. -/
theorem calls (emits : Emits source processor s docs more t) : ∃ calls willing,
    Calls processor (s.engine, s.own) calls willing (t.engine, t.own) ∧
      (∀ call ∈ calls, source.payload? call.1 = .ok (some call.2)) ∧
      s.pager.Pages docs (calls.map (·.1)) willing more t.pager := by
  induction emits with
  | nothing quiet =>
    refine ⟨[], true, ?_, by simp, ?_⟩
    · rw [quiet.engine, quiet.own]
      exact Calls.none quiet.keeps
    · rw [quiet.pager]
      exact Pager.pages_nothing _
  | full done quiet =>
    refine ⟨[], true, ?_, by simp, ?_⟩
    · rw [quiet.engine, quiet.own]
      exact Calls.none quiet.keeps
    · rw [quiet.pager]
      exact Pager.pages_full done _
  | skip offered _ ih =>
    obtain ⟨calls, willing, made, payloads, pages⟩ := ih
    exact ⟨calls, willing, made, payloads, pages.skip offered⟩
  | @take _ t _ document _ _ _ payload _ _ offered stored quiet called _ ih =>
    obtain ⟨calls, willing, made, payloads, pages⟩ := ih
    rw [quiet.engine, quiet.own] at called
    refine ⟨(document, payload) :: calls, willing, Calls.more quiet.keeps called made, ?_, ?_⟩
    · exact List.forall_mem_cons.mpr ⟨stored, payloads⟩
    · exact pages.take offered
  | @stop _ t _ document _ _ payload _ _ offered stored quiet called after =>
    rw [quiet.engine, quiet.own] at called
    refine ⟨[(document, payload)], false, ?_, by simpa using stored, ?_⟩
    · rw [after.engine, after.own]
      exact Calls.stop quiet.keeps called after.keeps
    · rw [after.pager]
      exact Pager.pages_stop offered

end Emits

theorem Calls.willing {processor : Processor ρ} {start last : Engine × ρ}
    {calls : List (Nat × View)} {willing : Bool}
    (never : ∀ document payload state, (processor document payload state).1 = true)
    (made : Calls processor start calls willing last) : willing = true := by
  induction made with
  | none => rfl
  | more _ _ _ ih => exact ih
  | @stop e _ own _ arena _ document payload _ called _ =>
    have going := never document payload ({ e with arena }, own)
    rw [called] at going
    contradiction

end DocStore
