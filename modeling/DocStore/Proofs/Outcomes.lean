import Mathlib.Algebra.Ring.Nat
import Mathlib.Data.List.GetD
import DocStore.Fault

/-! Outcomes of the computations of the library. A decoder, a lender and a query are all
state computations that may be refused or meet a fault; `Meets` says what holds after each way
of ending, and that the ending is no fault. -/
namespace DocStore

variable {ε σ α β : Type}

@[simp] theorem ok_bind {δ : Type} (a : α) (f : α → Except δ β) : (Except.ok a >>= f) = f a := rfl

@[simp] theorem error_bind {δ : Type} (e : δ) (f : α → Except δ β) :
    (Except.error e >>= f) = Except.error e := rfl

@[simp] theorem pure_eq_ok {δ : Type} (a : α) : (pure a : Except δ α) = Except.ok a := rfl

@[simp] theorem lift_ok (a : α) :
    (liftM (Except.ok a : Except Fault α) : Except (Failure ε) α) = Except.ok a := rfl

theorem lift_eq_ok {read : Except Fault α} {a : α} :
    (liftM read : Except (Failure ε) α) = .ok a ↔ read = .ok a := by
  cases read with
  | error cause => exact ⟨nofun, nofun⟩
  | ok b => simp

@[simp] theorem refuse_eq (e : ε) :
    (refuse e : Except (Failure ε) α) = Except.error (.refused e) := rfl

theorem bind_eq_ok {δ : Type} {x : Except δ α} {f : α → Except δ β} {b : β} :
    (x >>= f) = .ok b ↔ ∃ a, x = .ok a ∧ f a = .ok b := by
  cases x <;> simp

/-- Numbers that 32 bits hold are sizes. -/
theorem lt_sizeLimit {n : Nat} (small : n < 2 ^ 32) : n < sizeLimit :=
  Nat.lt_trans small (by decide)

theorem addSizes_one {n : Nat} (small : n < 2 ^ 32) : addSizes n 1 = .ok (n + 1) :=
  addSizes_of_lt (Nat.lt_of_le_of_lt small (by decide))

theorem addSizes_eq_ok {a b sum : Nat} :
    addSizes a b = .ok sum ↔ a + b < sizeLimit ∧ a + b = sum := by
  unfold addSizes
  split <;> simp [*]

theorem foldlM_addSizes {sizes : List Nat} {start : Nat} (fits : start + sizes.sum < sizeLimit) :
    sizes.foldlM addSizes start = .ok (start + sizes.sum) := by
  induction sizes generalizing start with
  | nil => rfl
  | cons size rest ih =>
    rw [List.sum_cons, ← Nat.add_assoc] at fits ⊢
    rw [List.foldlM_cons, addSizes_of_lt (by omega), ok_bind, ih fits]

theorem sum_of_foldlM_addSizes {sizes : List Nat} {start total : Nat}
    (added : sizes.foldlM addSizes start = .ok total) : start + sizes.sum = total := by
  induction sizes generalizing start with
  | nil => exact Except.ok.inj added
  | cons size rest ih =>
    rw [List.foldlM_cons] at added
    obtain ⟨next, first, later⟩ := bind_eq_ok.mp added
    obtain ⟨_, rfl⟩ := addSizes_eq_ok.mp first
    rw [List.sum_cons, ← Nat.add_assoc]
    exact ih later

theorem mapError_eq_ok {δ ζ : Type} {x : Except δ α} {f : δ → ζ} {a : α} :
    x.mapError f = .ok a ↔ x = .ok a := by
  cases x <;> simp [Except.mapError]

theorem map_eq_ok {δ : Type} {x : Except δ α} {f : α → β} {b : β} :
    x.map f = .ok b ↔ ∃ a, x = .ok a ∧ f a = b := by
  cases x <;> simp [Except.map]

theorem mapM_eq_ok {δ : Type} {f : α → Except δ β} {g : α → β} {items : List α}
    (each : ∀ a ∈ items, f a = .ok (g a)) : items.mapM f = .ok (items.map g) := by
  induction items with
  | nil => rfl
  | cons a rest ih =>
    rw [List.mapM_cons, each a List.mem_cons_self, ok_bind,
      ih fun a inside => each a (List.mem_cons_of_mem _ inside), ok_bind]
    rfl

theorem mapM_eq_mapM {δ γ : Type} {f : α → Except δ β} {g : γ → Except δ β} {items : List α}
    {others : List γ} (alike : List.Forall₂ (fun a c => f a = g c) items others) :
    items.mapM f = others.mapM g := by
  induction alike with
  | nil => rfl
  | cons same _ ih => rw [List.mapM_cons, List.mapM_cons, same, ih]

theorem mapM_range_eq {δ : Type} {f : Nat → Except δ β} {answers : List β}
    (each : ∀ (k : Nat) (inside : k < answers.length), f k = .ok answers[k]) :
    (List.range answers.length).mapM f = .ok answers := by
  cases answers with
  | nil => rfl
  | cons first rest =>
    rw [mapM_eq_ok (g := fun k => (first :: rest).getD k first) fun k inside => ?_]
    · refine congrArg Except.ok (List.ext_getElem (by simp) fun k _ inside => ?_)
      rw [List.getElem_map, List.getElem_range, List.getD_eq_getElem _ _ inside]
    · have inside := List.mem_range.mp inside
      rw [each k inside, List.getD_eq_getElem _ _ inside]

theorem mapM_exists {δ : Type} {f : α → Except δ β} {items : List α}
    (each : ∀ a ∈ items, ∃ b, f a = .ok b) : ∃ answers, items.mapM f = .ok answers := by
  induction items with
  | nil => exact ⟨[], rfl⟩
  | cons a rest ih =>
    obtain ⟨b, answer⟩ := each a List.mem_cons_self
    obtain ⟨answers, others⟩ := ih fun a inside => each a (List.mem_cons_of_mem _ inside)
    exact ⟨b :: answers, by rw [List.mapM_cons, answer, ok_bind, others, ok_bind]; rfl⟩

/-- The first of some calls that fails ends them all, when they fail alike. -/
theorem mapM_eq_error {δ : Type} {f : α → Except δ β} {e : δ} {items : List α}
    (each : ∀ a ∈ items, (∃ b, f a = .ok b) ∨ f a = .error e)
    (failing : ∃ a ∈ items, f a = .error e) : items.mapM f = .error e := by
  induction items with
  | nil =>
    obtain ⟨a, none, _⟩ := failing
    exact absurd none List.not_mem_nil
  | cons first rest ih =>
    obtain ⟨now, later⟩ := List.forall_mem_cons.mp each
    rw [List.mapM_cons]
    rcases now with ⟨b, fine⟩ | failed
    · obtain ⟨a, inside, failed⟩ := failing
      rcases List.mem_cons.mp inside with rfl | behind
      · rw [failed] at fine
        cases fine
      · rw [fine, ok_bind, ih later ⟨a, behind, failed⟩, error_bind]
    · rw [failed, error_bind]

/-- A loop that carries more beside the state of another does what that one does. -/
theorem foldlM_fst {δ γ : Type} {f : α × β → γ → Except δ (α × β)} {g : α → γ → Except δ α}
    {items : List γ} {a a' : α} {b b' : β}
    (each : ∀ a b item a' b', f (a, b) item = .ok (a', b') → g a item = .ok a')
    (ran : items.foldlM f (a, b) = .ok (a', b')) : items.foldlM g a = .ok a' := by
  induction items generalizing a b with
  | nil =>
    cases ran
    rfl
  | cons item rest ih =>
    rw [List.foldlM_cons] at ran ⊢
    obtain ⟨⟨next, beside⟩, stepped, later⟩ := bind_eq_ok.mp ran
    rw [each a b item next beside stepped, ok_bind]
    exact ih later

theorem filterM_eq_ok {δ : Type} {f : α → Except δ Bool} {p : α → Bool} {items : List α}
    (each : ∀ a ∈ items, f a = .ok (p a)) : items.filterM f = .ok (items.filter p) := by
  suffices loop : ∀ kept : List α,
      items.filterAuxM f kept = .ok ((items.filter p).reverse ++ kept) by
    rw [List.filterM, loop [], ok_bind, List.append_nil, List.reverse_reverse]
    rfl
  induction items with
  | nil => exact fun _ => rfl
  | cons a rest ih =>
    intro kept
    rw [List.filterAuxM, each a List.mem_cons_self, ok_bind,
      ih fun a inside => each a (List.mem_cons_of_mem _ inside)]
    cases known : p a <;> simp [known]

theorem filterMapM_eq_ok {δ : Type} {f : α → Except δ (Option β)} {g : α → Option β}
    {items : List α} (each : ∀ a ∈ items, f a = .ok (g a)) :
    items.filterMapM f = .ok (items.filterMap g) := by
  induction items with
  | nil => rfl
  | cons a rest ih =>
    rw [List.filterMapM_cons, each a List.mem_cons_self, ok_bind,
      ih fun a inside => each a (List.mem_cons_of_mem _ inside)]
    cases known : g a <;> simp [known]

theorem filterMapM_exists {δ : Type} {f : α → Except δ (Option β)} {items : List α}
    (each : ∀ a ∈ items, ∃ b, f a = .ok b) : ∃ answers, items.filterMapM f = .ok answers := by
  induction items with
  | nil => exact ⟨[], rfl⟩
  | cons a rest ih =>
    obtain ⟨b, answer⟩ := each a List.mem_cons_self
    obtain ⟨answers, others⟩ := ih fun a inside => each a (List.mem_cons_of_mem _ inside)
    rw [List.filterMapM_cons, answer, ok_bind, others]
    cases b <;> exact ⟨_, rfl⟩

theorem forM_eq_ok {δ : Type} {step : α → Except δ Unit} {items : List α} :
    items.forM step = .ok () ↔ ∀ a ∈ items, step a = .ok () := by
  induction items with
  | nil => exact ⟨fun _ _ inside => absurd inside List.not_mem_nil, fun _ => rfl⟩
  | cons a rest ih =>
    rw [List.forM_eq_forM, List.forM_cons, bind_eq_ok, List.forall_mem_cons, ← ih]
    exact ⟨fun ⟨_, now, later⟩ => ⟨now, later⟩, fun ⟨now, later⟩ => ⟨(), now, later⟩⟩

theorem forM_total {step : α → Except (Failure ε) Unit} {items : List α}
    (each : ∀ a ∈ items, (∃ e, step a = .error (.refused e)) ∨ step a = .ok ()) :
    (∃ e, items.forM step = .error (.refused e)) ∨ items.forM step = .ok () := by
  induction items with
  | nil => exact Or.inr rfl
  | cons a rest ih =>
    rw [List.forM_eq_forM, List.forM_cons]
    rcases each a List.mem_cons_self with ⟨e, refused⟩ | now
    · exact Or.inl ⟨e, by rw [refused, error_bind]⟩
    · rw [now, ok_bind]
      exact ih fun a inside => each a (List.mem_cons_of_mem _ inside)

/-- A computation from `s` meets no fault. It ends with a value and a state that `post`
admits, or it is refused with an error and a state that `refused` admits. -/
def Meets (x : ExceptT (Failure ε) (StateM σ) α) (s : σ) (post : α → σ → Prop)
    (refused : ε → σ → Prop) : Prop :=
  match (ExceptT.run x).run s with
  | (.ok a, s') => post a s'
  | (.error (.refused e), s') => refused e s'
  | (.error (.fault _), _) => False

namespace Meets

variable {x : ExceptT (Failure ε) (StateM σ) α} {f : α → ExceptT (Failure ε) (StateM σ) β}
  {s t : σ} {a : α} {e : ε} {post post' : α → σ → Prop} {refused refused' : ε → σ → Prop}

theorem run_bind (x : ExceptT (Failure ε) (StateM σ) α)
    (f : α → ExceptT (Failure ε) (StateM σ) β) (s : σ) :
    (ExceptT.run (x >>= f)).run s = match (ExceptT.run x).run s with
      | (.ok a, s') => (ExceptT.run (f a)).run s'
      | (.error e, s') => (.error e, s') := by
  change (ExceptT.bindCont f) ((ExceptT.run x).run s).1 ((ExceptT.run x).run s).2 = _
  rcases (ExceptT.run x).run s with ⟨_ | _, _⟩ <;> rfl

theorem bind {post : β → σ → Prop} :
    Meets (x >>= f) s post refused ↔
      Meets x s (fun a s' => Meets (f a) s' post refused) refused := by
  unfold Meets
  rw [run_bind]
  rcases (ExceptT.run x).run s with ⟨(_ | _) | _, _⟩ <;> rfl

theorem pure : Meets (Pure.pure a) s post refused ↔ post a s := Iff.rfl

theorem get {post : σ → σ → Prop} :
    Meets (MonadState.get : ExceptT (Failure ε) (StateM σ) σ) s post refused ↔ post s s := Iff.rfl

theorem refuse :
    Meets (DocStore.refuse e : ExceptT (Failure ε) (StateM σ) α) s post refused ↔ refused e s :=
  Iff.rfl

theorem lift {read : Except Fault α} (answers : read = .ok a) :
    Meets (liftM read : ExceptT (Failure ε) (StateM σ) α) s post refused ↔ post a s := by
  subst answers
  rfl

theorem checked {check : Except (Failure ε) α}
    (total : (∃ e, check = .error (.refused e)) ∨ ∃ a, check = .ok a)
    (accepted : ∀ a, check = .ok a → post a s)
    (refusal : ∀ e, check = .error (.refused e) → refused e s) :
    Meets (liftM check : ExceptT (Failure ε) (StateM σ) α) s post refused := by
  rcases total with ⟨e, refusing⟩ | ⟨a, accepting⟩
  · subst refusing
    exact refusal e rfl
  · subst accepting
    exact accepted a rfl

theorem mono (meets : Meets x s post refused) (value : ∀ a s', post a s' → post' a s')
    (refusal : ∀ e s', refused e s' → refused' e s') : Meets x s post' refused' := by
  unfold Meets at *
  split at meets
  · exact value _ _ meets
  · exact refusal _ _ meets
  · exact meets

/-- What holds after each step of a loop, and of the items it has left, holds after the loop. -/
theorem foldlM {items : List β} {step : α → β → ExceptT (Failure ε) (StateM σ) α}
    (holds : List β → α → σ → Prop) (start : holds items a s)
    (next : ∀ item rest a s, holds (item :: rest) a s →
      Meets (step a item) s (holds rest) refused) :
    Meets (items.foldlM step a) s (holds []) refused := by
  induction items generalizing a s with
  | nil => exact start
  | cons item rest ih =>
    rw [List.foldlM_cons, bind]
    exact (next item rest a s start).mono (fun _ _ held => ih held) (fun _ _ => id)

theorem forM {items : List β} {step : β → ExceptT (Failure ε) (StateM σ) Unit}
    (holds : List β → σ → Prop) (start : holds items s)
    (next : ∀ item rest s, holds (item :: rest) s →
      Meets (step item) s (fun _ => holds rest) refused) :
    Meets (items.forM step) s (fun _ => holds []) refused := by
  induction items generalizing s with
  | nil => exact start
  | cons item rest ih =>
    rw [List.forM_eq_forM, List.forM_cons, bind]
    exact (next item rest s start).mono (fun _ _ held => ih held) (fun _ _ => id)

theorem ok_of_run {s' : σ} (meets : Meets x s post refused)
    (ran : (ExceptT.run x).run s = (.ok a, s')) : post a s' := by
  simpa only [Meets, ran] using meets

theorem of_run {answer : Except (Failure ε) α} {s' : σ} {holds : σ → Prop}
    (meets : Meets x s (fun _ => holds) fun _ => holds)
    (ran : (ExceptT.run x).run s = (answer, s')) : holds s' := by
  unfold Meets at meets
  rw [ran] at meets
  rcases answer with (error | cause) | a
  · exact meets
  · exact meets.elim
  · exact meets

theorem run_eq (meets : Meets x s post fun _ _ => False) :
    ∃ a s', (ExceptT.run x).run s = (.ok a, s') ∧ post a s' := by
  unfold Meets at meets
  split at meets
  · exact ⟨_, _, ‹_›, meets⟩
  · exact meets.elim
  · exact meets.elim

end Meets

def Ends (x : Except (Failure ε) α) (post : α → Prop) : Prop :=
  (∃ e, x = .error (.refused e)) ∨ ∃ a, x = .ok a ∧ post a

namespace Ends

variable {x : Except (Failure ε) α} {f : α → Except (Failure ε) β} {post : α → Prop}
  {post' : β → Prop}

theorem ok {a : α} (holds : post a) : Ends (.ok a : Except (Failure ε) α) post :=
  Or.inr ⟨a, rfl, holds⟩

theorem refused (e : ε) : Ends (.error (.refused e) : Except (Failure ε) α) post := Or.inl ⟨e, rfl⟩

theorem bind (first : Ends x post) (next : ∀ a, post a → Ends (f a) post') :
    Ends (x >>= f) post' := by
  rcases first with ⟨e, rfl⟩ | ⟨a, rfl, held⟩
  · exact refused e
  · exact next a held

theorem foldlM {items : List β} {step : α → β → Except (Failure ε) α} {a : α} (start : post a)
    (next : ∀ a, ∀ item ∈ items, post a → Ends (step a item) post) :
    Ends (items.foldlM step a) post := by
  induction items generalizing a with
  | nil => exact ok start
  | cons item rest ih =>
    rw [List.foldlM_cons]
    exact (next a item List.mem_cons_self start).bind fun b held =>
      ih held fun a item later => next a item (List.mem_cons_of_mem _ later)

theorem not_fault (ends : Ends x post) (cause : Fault) : x ≠ .error (.fault cause) := by
  rcases ends with ⟨e, rfl⟩ | ⟨a, rfl, _⟩ <;> exact nofun

end Ends

end DocStore
