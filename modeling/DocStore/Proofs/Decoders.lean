import DocStore.Format.Decoder
import DocStore.Proofs.Views

/-! What the shared decoders do to the bytes at the cursor. Each rule serves both directions:
with arbitrary bytes its second premise is trivial, with written bytes it is refuted. -/
namespace DocStore

structure Ascends (offset : Nat → Nat) (last : Nat) : Prop where
  zero : offset 0 = 0
  step : ∀ entry < last, offset entry ≤ offset (entry + 1)

theorem Ascends.mono {offset : Nat → Nat} {last low high : Nat} (ascends : Ascends offset last)
    (order : low ≤ high) (inside : high ≤ last) : offset low ≤ offset high := by
  induction order with
  | refl => exact Nat.le_refl _
  | step _ ih => exact Nat.le_trans (ih (by omega)) (ascends.step _ (by omega))

namespace Decoder

variable {α β : Type} {v w : View} {what : String}

theorem bind_eq_ok {decoder : Decoder α} {next : α → Decoder β} {b : β} :
    (decoder >>= next).runOn v = (.ok b, w) ↔
      ∃ a u, decoder.runOn v = (.ok a, u) ∧ (next a).runOn u = (.ok b, w) := by
  unfold runOn
  rw [Meets.run_bind]
  rcases (ExceptT.run decoder).run v with ⟨_ | a, u⟩
  · simp
  · constructor
    · exact fun ran => ⟨a, u, rfl, ran⟩
    · rintro ⟨_, _, same, ran⟩
      cases same
      exact ran

/-- What a check lets pass. -/
theorem passed_of_ok {c : Prop} [Decidable c] {reason : Corruption} {next : Decoder β} {b : β}
    (ran : (if c then (do let () ← corrupt reason; next) else next).runOn v = (.ok b, w)) :
    ¬ c ∧ next.runOn v = (.ok b, w) := by
  by_cases failed : c
  · rw [if_pos failed] at ran
    obtain ⟨_, _, impossible, _⟩ := bind_eq_ok.mp ran
    exact nomatch impossible
  · rw [if_neg failed] at ran
    exact ⟨failed, ran⟩

theorem post_of_ok {decoder : Decoder α} {post : α → Prop} {a : α}
    (meets : Meets decoder v (fun a _ => post a) fun _ _ => True)
    (ran : decoder.runOn v = (.ok a, w)) : post a :=
  meets.ok_of_run ran

/-- A decoder reads `bytes`: whatever follows them, it consumes just these and answers as
`post` says. -/
def Reads (decoder : Decoder α) (bytes : Bytes) (post : α → Prop) : Prop :=
  ∀ v tail, View.rest v = bytes ++ tail →
    Meets decoder v (fun a w => w.rest = tail ∧ post a) fun _ _ => False

theorem uint32_meets {post : Nat → View → Prop} {refused : FormatError → View → Prop}
    (read : ∀ w, 4 ≤ v.rest.length → w.rest = v.rest.drop 4 →
      post (Bytes.value (v.rest.take 4)) w)
    (short : v.rest.length < 4 → ∀ e, refused e v) : Meets (uint32 what) v post refused := by
  rw [uint32, Meets.bind, Meets.get]
  by_cases enough : 4 ≤ v.rest.length
  · obtain ⟨w, moved⟩ := View.skip?_exists enough
    have took : v.readUInt32? = some (Bytes.value (v.rest.take 4), w) := by
      simp [View.readUInt32?, View.read?, moved, View.window_position enough]
    simp only [took, Meets.bind]
    exact read w enough (View.skip?_eq_some moved).2.1
  · have stuck : v.readUInt32? = none := by
      cases moved : v.skip? 4 with
      | none => simp [View.readUInt32?, View.read?, moved]
      | some w => exact absurd (View.skip?_eq_some moved).1 enough
    simp only [stuck]
    exact short (Nat.lt_of_not_le enough) _

theorem slice_meets {count : Nat} {post : View → View → Prop}
    {refused : FormatError → View → Prop}
    (read : ∀ taken w, count ≤ v.rest.length → taken.bytes = v.rest.take count →
      taken.size = count → taken.position = 0 → w.rest = v.rest.drop count → post taken w)
    (short : v.rest.length < count → ∀ e, refused e v) :
    Meets (slice count what) v post refused := by
  rw [slice, Meets.bind, Meets.get]
  have bound := v.position_le
  by_cases enough : count ≤ v.rest.length
  · obtain ⟨w, moved⟩ := View.skip?_exists enough
    have room := enough
    rw [View.length_rest, View.remaining] at room
    obtain ⟨taken, cut⟩ := View.slice?_exists (show v.position + count ≤ v.size by omega)
    obtain ⟨_, size, start, _, same⟩ := View.slice?_eq_some cut
    have took : v.readSlice? count = some (taken, w) := by simp [View.readSlice?, cut, moved]
    simp only [took, Meets.bind]
    exact read taken w enough same size start (View.skip?_eq_some moved).2.1
  · have stuck : v.readSlice? count = none := by
      cases cut : v.slice? v.position count with
      | none => simp [View.readSlice?, cut]
      | some taken =>
        rw [View.length_rest, View.remaining] at enough
        have := (View.slice?_eq_some cut).1
        omega
    simp only [stuck]
    exact short (Nat.lt_of_not_le enough) _

theorem tableSize_meets {count width : Nat} {post : Nat → View → Prop}
    {refused : FormatError → View → Prop}
    (fits : count * width < sizeLimit → post (count * width) v)
    (large : sizeLimit ≤ count * width → ∀ e, refused e v) :
    Meets (tableSize count width what) v post refused := by
  unfold tableSize
  split
  · exact fits ‹_›
  · exact large (Nat.le_of_not_lt ‹_›) _

theorem table_meets {count width : Nat} {post : View → View → Prop}
    {refused : FormatError → View → Prop}
    (read : ∀ taken w, count * width ≤ v.rest.length → taken.bytes = v.rest.take (count * width) →
      taken.size = count * width → taken.position = 0 → w.rest = v.rest.drop (count * width) →
        post taken w)
    (short : v.rest.length < count * width ∨ sizeLimit ≤ count * width → ∀ e, refused e v) :
    Meets (table count width what) v post refused := by
  rw [table, Meets.bind]
  refine tableSize_meets (fun _ => ?_) (fun large => short (Or.inr large))
  exact slice_meets read (fun few => short (Or.inl few))

theorem offsetCount_eq {count : Nat} (small : count < 2 ^ 32) :
    offsetCount count what = pure (count + 1) :=
  if_pos (Nat.lt_of_le_of_lt small (by decide))

theorem lastOffset_meets {offset : Nat → Nat} {offsetAt : Nat → Except Fault Nat} {last : Nat}
    {post : Nat → View → Prop} {refused : FormatError → View → Prop}
    (answers : ∀ entry ≤ last, offsetAt entry = .ok (offset entry))
    (ordered : Ascends offset last → post (offset last) v)
    (disordered : ¬ Ascends offset last → ∀ e, refused e v) :
    Meets (lastOffset what (last + 1) offsetAt) v post refused := by
  unfold lastOffset
  induction last generalizing post refused with
  | zero =>
    rw [List.range_one, List.foldlM_cons, Meets.bind, Meets.bind, Meets.lift (answers 0 (by omega))]
    by_cases start : offset 0 = 0
    · simp only [start, ne_eq, not_true_eq_false, and_false, Nat.not_lt_zero, or_self, if_false]
      exact start ▸ ordered ⟨start, fun _ h => absurd h (Nat.not_lt_zero _)⟩
    · simp only [start, ne_eq, not_false_eq_true, and_self, true_or, if_true]
      exact disordered (fun ascends => start ascends.zero) _
  | succ last ih =>
    rw [List.range_succ, List.foldlM_append, Meets.bind]
    refine ih (fun entry bound => answers entry (by omega)) (fun ascends => ?_)
      (fun broken e => disordered (fun all => broken ⟨all.zero, fun k h => all.step k (by omega)⟩) e)
    rw [List.foldlM_cons, Meets.bind, Meets.bind, Meets.lift (answers (last + 1) (by omega))]
    by_cases down : offset (last + 1) < offset last
    · simp only [Nat.add_eq_zero_iff, Nat.succ_ne_self, and_false, false_and, down, or_true, if_true]
      exact disordered (fun all => Nat.not_le_of_lt down (all.step last (by omega))) _
    · simp only [Nat.add_eq_zero_iff, Nat.succ_ne_self, and_false, false_and, down, or_self, if_false]
      refine ordered ⟨ascends.zero, fun entry bound => ?_⟩
      rcases Nat.lt_succ_iff_lt_or_eq.mp bound with before | rfl
      · exact ascends.step entry before
      · exact Nat.le_of_not_lt down

namespace Reads

variable {front back bytes : Bytes} {decoder : Decoder α} {next : α → Decoder β}
  {post : α → Prop} {post' : β → Prop}

theorem pure {a : α} (holds : post a) : Reads (Pure.pure a) [] post :=
  fun _ _ here => Meets.pure.mpr ⟨here, holds⟩

theorem checked {check : Except (Failure FormatError) α} {a : α} (accepted : check = .ok a) :
    Reads (liftM check) [] (· = a) := by
  subst accepted
  exact fun _ _ here => ⟨here, rfl⟩

theorem bind (first : Reads decoder front post) (later : ∀ a, post a → Reads (next a) back post') :
    Reads (decoder >>= next) (front ++ back) post' := fun v tail here => by
  rw [List.append_assoc] at here
  exact Meets.bind.mpr ((first v _ here).mono (fun a w read => later a read.2 w tail read.1)
    fun _ _ => id)

/-- A step that consumes nothing before the rest of a decoder. -/
theorem bind_nil (first : Reads decoder [] post)
    (later : ∀ a, post a → Reads (next a) back post') : Reads (decoder >>= next) back post' :=
  first.bind later

/-- The last step that consumes anything. -/
theorem bind_last (first : Reads decoder front post)
    (later : ∀ a, post a → Reads (next a) [] post') : Reads (decoder >>= next) front post' := by
  simpa only [List.append_nil] using first.bind later

/-- Checks that consume nothing and refuse nothing. -/
theorem forM {items : List β} {step : β → Decoder Unit}
    (each : ∀ item ∈ items, Reads (step item) [] fun _ => True) :
    Reads (items.forM step) [] fun _ => True := by
  induction items with
  | nil => exact Reads.pure trivial
  | cons item rest ih =>
    rw [List.forM_eq_forM, List.forM_cons]
    exact (each item List.mem_cons_self).bind_nil fun _ _ =>
      ih fun item later => each item (List.mem_cons_of_mem _ later)

theorem lift {read : Except Fault α} {a : α} (answers : read = .ok a) :
    Reads (liftM read : Decoder α) [] (· = a) := by
  subst answers
  exact fun _ _ here => ⟨here, rfl⟩

theorem mono {weaker : α → Prop} (reads : Reads decoder bytes post)
    (weaken : ∀ a, post a → weaker a) : Reads decoder bytes weaker := fun v tail here =>
  (reads v tail here).mono (fun a _ read => ⟨read.1, weaken a read.2⟩) fun _ _ => id

theorem position : Reads Decoder.position [] fun _ => True :=
  fun _ _ here => ⟨here, trivial⟩

theorem uint32 {n : Nat} (fits : n < 2 ^ 32) :
    Reads (Decoder.uint32 what) (Bytes.ofUInt32 n) (· = n) := fun v tail here => by
  have length := Bytes.length_ofUInt32 n
  refine uint32_meets (fun w _ moved => ?_) fun short => ?_
  · rw [here, List.drop_left' length] at moved
    refine ⟨moved, ?_⟩
    rw [here, List.take_left' length, Bytes.value_ofUInt32 fits]
  · rw [here, List.length_append] at short
    omega

theorem slice (bytes : Bytes) :
    Reads (Decoder.slice bytes.length what) bytes fun taken =>
      taken.bytes = bytes ∧ taken.position = 0 := fun v tail here => by
  refine slice_meets (fun taken w _ same _ start moved => ?_) fun short => ?_
  · rw [here, List.drop_left] at moved
    rw [here, List.take_left] at same
    exact ⟨moved, same, start⟩
  · rw [here, List.length_append] at short
    omega

theorem counted (fits : bytes.length < 2 ^ 32) :
    Reads (Decoder.counted what) (Bytes.counted bytes) (·.bytes = bytes) := by
  unfold Decoder.counted Bytes.counted
  refine (uint32 fits).bind fun _ same => ?_
  subst same
  exact (slice bytes).mono fun _ taken => taken.1

/-- A number in 32 bits, the place of which is noted for a complaint. -/
theorem tagged {n : Nat} {next : Nat → Nat → Decoder α} (fits : n < 2 ^ 32)
    (later : ∀ place, Reads (next place n) back post) :
    Reads (Decoder.position >>= fun place => Decoder.uint32 what >>= next place)
      (Bytes.ofUInt32 n ++ back) post :=
  position.bind_nil fun place _ => (uint32 fits).bind fun _ same => same ▸ later place

/-- A reader run on just the bytes it reads. -/
theorem run_eq {v : View} {tail : Bytes} (reads : Reads decoder bytes post)
    (here : v.rest = bytes ++ tail) :
    ∃ a w, decoder.runOn v = (.ok a, w) ∧ w.rest = tail ∧ post a :=
  (reads v tail here).run_eq

end Reads

end Decoder

end DocStore
