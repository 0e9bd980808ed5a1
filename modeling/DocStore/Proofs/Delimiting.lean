import DocStore.Proofs.Decoders

/-! Decoders that find their own end. One that accepts the bytes at a cursor has consumed a stretch
of them that decides alone: whatever follows the stretch, it is read to its end and means the same,
and no proper prefix of it is accepted. -/
namespace DocStore

namespace View

variable {v w u : View} {used more : Bytes} {offset count : Nat}

structure Passes (v w : View) (used : Bytes) : Prop where
  rest : v.rest = used ++ w.rest
  bytes : w.bytes = v.bytes

theorem Passes.refl (v : View) : v.Passes v [] := ⟨rfl, rfl⟩

theorem Passes.trans (first : v.Passes w used) (second : w.Passes u more) :
    v.Passes u (used ++ more) where
  rest := by rw [first.rest, second.rest, List.append_assoc]
  bytes := second.bytes.trans first.bytes

theorem Passes.rest_of (passes : v.Passes w used) (here : v.rest = used ++ more) :
    w.rest = more :=
  List.append_cancel_left (passes.rest.symm.trans here)

theorem Passes.unique (one : v.Passes w used) (other : v.Passes w more) : used = more :=
  List.append_cancel_right (one.rest.symm.trans other.rest)

theorem Passes.position (passes : v.Passes w used) : w.position = v.position + used.length := by
  have rest := congrArg List.length passes.rest
  have size := congrArg List.length passes.bytes
  rw [List.length_append, length_rest, length_rest, remaining, remaining] at rest
  rw [length_bytes, length_bytes] at size
  have := v.position_le
  have := w.position_le
  omega

theorem skip?_passes (moved : v.skip? count = some w) : v.Passes w (v.rest.take count) where
  rest := by rw [(skip?_eq_some moved).2.1, List.take_append_drop]
  bytes := by
    unfold skip? at moved
    split at moved
    · obtain rfl := Option.some.inj moved
      rfl
    · contradiction

def detached (v : View) : View := ofBytes v.bytes

section
variable (same : v.bytes = w.bytes)
include same

theorem detached_congr : v.detached = w.detached := congrArg ofBytes same

theorem size_congr : v.size = w.size := by
  rw [← length_bytes, ← length_bytes, same]

theorem byteAt_congr : v.byteAt = w.byteAt := by
  funext offset
  by_cases inside : offset < v.size
  · obtain ⟨here, there⟩ : offset < v.bytes.length ∧ offset < w.bytes.length := by
      rw [← same, length_bytes]
      exact ⟨inside, inside⟩
    rw [byteAt_eq here, byteAt_eq there]
    simp only [same]
  · rw [byteAt, dif_neg inside, byteAt, dif_neg (size_congr same ▸ inside)]

theorem bytesAt_congr : v.bytesAt = w.bytesAt := by
  funext offset count
  by_cases inside : offset + count ≤ v.size
  · rw [bytesAt_eq inside, bytesAt_eq (size_congr same ▸ inside), same]
  · rw [bytesAt, if_neg inside, bytesAt, if_neg (size_congr same ▸ inside)]

theorem uint32At_congr : v.uint32At = w.uint32At := by
  funext offset
  rw [uint32At, bytesAt_congr same, uint32At]

theorem uint64At_congr : v.uint64At = w.uint64At := by
  funext offset
  rw [uint64At, bytesAt_congr same, uint64At]

end

end View

namespace Decoder

variable {α β γ : Type} {v w : View} {what : String} {count : Nat}

/-- What a decoder makes of a view after a first step that ended well. -/
theorem runOn_bind {decoder : Decoder α} {next : α → Decoder β} {a : α}
    (ran : decoder.runOn v = (.ok a, w)) : (decoder >>= next).runOn v = (next a).runOn w := by
  unfold runOn at *
  rw [Meets.run_bind, ran]

theorem runOn_bind_error {decoder : Decoder α} {next : α → Decoder β}
    {failure : Failure FormatError} (ran : decoder.runOn v = (.error failure, w)) :
    (decoder >>= next).runOn v = (.error failure, w) := by
  unfold runOn at *
  rw [Meets.run_bind, ran]

theorem uint32_of_rest {four tail : Bytes} (here : v.rest = four ++ tail)
    (width : four.length = 4) :
    ∃ w, (uint32 what).runOn v = (.ok (Bytes.value four), w) ∧ v.Passes w four := by
  have enough : 4 ≤ v.rest.length := by
    rw [here, List.length_append]
    omega
  have front : v.rest.take 4 = four := by rw [here, List.take_left' width]
  obtain ⟨w, moved⟩ := View.skip?_exists enough
  have took : v.readUInt32? = some (Bytes.value four, w) := by
    simp [View.readUInt32?, View.read?, moved, View.window_position enough, front]
  have asked : (MonadState.get : Decoder View).runOn v = (.ok v, v) := rfl
  refine ⟨w, ?_, front ▸ View.skip?_passes moved⟩
  rw [uint32, runOn_bind asked]
  simp only [took]
  rfl

theorem uint32_of_short (short : v.rest.length < 4) :
    (uint32 what).runOn v = (.error (.refused (.truncated v.position what)), v) := by
  have stuck : v.readUInt32? = none := by
    cases moved : v.skip? 4 with
    | none => simp [View.readUInt32?, View.read?, moved]
    | some w => exact absurd (View.skip?_eq_some moved).1 (Nat.not_le_of_lt short)
  have asked : (MonadState.get : Decoder View).runOn v = (.ok v, v) := rfl
  rw [uint32, runOn_bind asked]
  simp only [stuck]
  rfl

theorem slice_of_rest {front tail : Bytes} (here : v.rest = front ++ tail)
    (width : front.length = count) :
    ∃ taken w, (slice count what).runOn v = (.ok taken, w) ∧ v.Passes w front ∧
      taken.bytes = front ∧ taken.position = 0 := by
  have enough : count ≤ v.rest.length := by
    rw [here, List.length_append]
    omega
  have first : v.rest.take count = front := by rw [here, List.take_left' width]
  have room := enough
  rw [View.length_rest, View.remaining] at room
  have bound := v.position_le
  obtain ⟨w, moved⟩ := View.skip?_exists enough
  obtain ⟨taken, cut⟩ := View.slice?_exists (show v.position + count ≤ v.size by omega)
  obtain ⟨_, _, start, _, same⟩ := View.slice?_eq_some cut
  have took : v.readSlice? count = some (taken, w) := by simp [View.readSlice?, cut, moved]
  have asked : (MonadState.get : Decoder View).runOn v = (.ok v, v) := rfl
  refine ⟨taken, w, ?_, first ▸ View.skip?_passes moved, same.trans first, start⟩
  rw [slice, runOn_bind asked]
  simp only [took]
  rfl

theorem slice_of_short (short : v.rest.length < count) :
    (slice count what).runOn v = (.error (.refused (.truncated v.position what)), v) := by
  have bound := v.position_le
  rw [View.length_rest, View.remaining] at short
  have stuck : v.readSlice? count = none := by
    cases cut : v.slice? v.position count with
    | none => simp [View.readSlice?, cut]
    | some taken =>
      have := (View.slice?_eq_some cut).1
      omega
  have asked : (MonadState.get : Decoder View).runOn v = (.ok v, v) := rfl
  rw [slice, runOn_bind asked]
  simp only [stuck]
  rfl

theorem uint32_eq_ok {n : Nat} (ran : (uint32 what).runOn v = (.ok n, w)) :
    ∃ four, four.length = 4 ∧ n = Bytes.value four ∧ v.Passes w four := by
  rcases Nat.lt_or_ge v.rest.length 4 with short | enough
  · rw [uint32_of_short short] at ran
    cases ran
  · have width : (v.rest.take 4).length = 4 := List.length_take_of_le enough
    obtain ⟨u, read, passes⟩ := uint32_of_rest (List.take_append_drop 4 v.rest).symm width
    rw [read] at ran
    cases ran
    exact ⟨_, width, rfl, passes⟩

theorem slice_eq_ok {taken : View} (ran : (slice count what).runOn v = (.ok taken, w)) :
    taken.bytes.length = count ∧ taken.position = 0 ∧ v.Passes w taken.bytes := by
  rcases Nat.lt_or_ge v.rest.length count with short | enough
  · rw [slice_of_short short] at ran
    cases ran
  · have width : (v.rest.take count).length = count := List.length_take_of_le enough
    obtain ⟨other, u, read, passes, same, start⟩ :=
      slice_of_rest (List.take_append_drop count v.rest).symm width
    rw [read] at ran
    cases ran
    exact ⟨same ▸ width, start, same ▸ passes⟩

/-- Whatever follows `used`, the decoder consumes just these bytes, and what `see` tells of its
answer is `seen`. -/
def Consumes (decoder : Decoder α) (used : Bytes) (see : α → γ) (seen : γ) : Prop :=
  ∀ v tail, View.rest v = used ++ tail →
    ∃ a w, decoder.runOn v = (.ok a, w) ∧ v.Passes w used ∧ see a = seen

def Starves (decoder : Decoder α) (used : Bytes) : Prop :=
  ∀ v missing, missing ≠ [] → View.rest v ++ missing = used →
    ∃ offset what w, decoder.runOn v = (.error (.refused (.truncated offset what)), w)

/-- What the first decoder consumes when it ends well is what the second one consumes, with an
answer that tells the same; on less the second one starves. -/
def Follows (leader follower : Decoder α) (see : α → γ) : Prop :=
  ∀ v a w, leader.runOn v = (.ok a, w) → ∃ used, v.Passes w used ∧
    follower.Consumes used see (see a) ∧ follower.Starves used

/-- A decoder that finds its own end: what it has consumed decides its answer, as far as `see`
tells, and leaves no choice of where to stop. -/
abbrev Delimits (decoder : Decoder α) (see : α → γ) : Prop := decoder.Follows decoder see

theorem starves_nil (decoder : Decoder α) : decoder.Starves [] := by
  intro v missing some whole
  exact absurd (List.append_eq_nil_iff.mp whole).2 some

/-- The bytes of two steps. Less than them ends inside those of the first step, or leaves the
second with less than its own. -/
theorem append_cases {cut missing front back : Bytes} (whole : cut ++ missing = front ++ back) :
    (∃ lost, lost ≠ [] ∧ cut ++ lost = front) ∨ ∃ left, cut = front ++ left ∧ left ++ missing = back := by
  rcases List.append_eq_append_iff.mp whole with ⟨lost, same, _⟩ | ⟨left, same, rest⟩
  · cases lost with
    | nil => exact Or.inr ⟨[], by simpa using same.symm, by simp_all⟩
    | cons first others => exact Or.inl ⟨first :: others, List.cons_ne_nil _ _, same.symm⟩
  · exact Or.inr ⟨left, same, rest.symm⟩

namespace Follows

variable {leader follower : Decoder α} {next next' : α → Decoder β} {see : α → γ} {δ : Type}
  {see' : β → δ}

theorem pure {a b : α} (same : see b = see a) : Follows (Pure.pure a) (Pure.pure b) see := by
  intro v a w ran
  cases ran
  refine ⟨[], View.Passes.refl v, ?_, starves_nil _⟩
  intro u tail here
  exact ⟨b, u, rfl, View.Passes.refl u, same⟩

theorem refuse {error : FormatError} : Follows (DocStore.refuse error) follower see := by
  intro v a w ran
  cases ran

theorem bind (first : Follows leader follower see)
    (later : ∀ a b, see b = see a → Follows (next a) (next' b) see') :
    Follows (leader >>= next) (follower >>= next') see' := by
  intro v c w ran
  obtain ⟨a, u, led, ran⟩ := bind_eq_ok.mp ran
  obtain ⟨front, passed, consumes, starves⟩ := first v a u led
  -- The bytes of the second step are the same for every answer that tells what `a` tells.
  obtain ⟨back, passes, _⟩ := later a a rfl u c w ran
  have second : ∀ b, see b = see a →
      (next' b).Consumes back see' (see' c) ∧ (next' b).Starves back := by
    intro b same
    obtain ⟨other, others, rest⟩ := later a b same u c w ran
    exact passes.unique others ▸ rest
  refine ⟨front ++ back, passed.trans passes, ?_, ?_⟩
  · intro x tail here
    rw [List.append_assoc] at here
    obtain ⟨b, y, begun, moved, same⟩ := consumes x _ here
    obtain ⟨d, z, ended, further, alike⟩ := (second b same).1 y tail (moved.rest_of here)
    exact ⟨d, z, (runOn_bind begun).trans ended, moved.trans further, alike⟩
  · intro x missing some whole
    rcases append_cases whole with ⟨lost, more, cut⟩ | ⟨left, cut, rest⟩
    · obtain ⟨offset, what, y, refused⟩ := starves x lost more cut
      exact ⟨offset, what, y, runOn_bind_error refused⟩
    · obtain ⟨b, y, begun, moved, same⟩ := consumes x left cut
      obtain ⟨offset, what, z, refused⟩ :=
        (second b same).2 y missing some (moved.rest_of cut ▸ rest)
      exact ⟨offset, what, z, (runOn_bind begun).trans refused⟩

/-- A step whose answer is the same number or text both times. -/
theorem bind_same (first : Follows leader follower (id : α → α))
    (later : ∀ a, Follows (next a) (next' a) see') :
    Follows (leader >>= next) (follower >>= next') see' := by
  apply first.bind
  intro a b same
  obtain rfl : b = a := same
  exact later b

/-- A computation that does not look at the view. -/
theorem lift {read : Except Fault α} :
    Follows (liftM read : Decoder α) (liftM read : Decoder α) see := by
  intro v a w ran
  cases read with
  | error cause => cases ran
  | ok value =>
    cases ran
    exact Follows.pure rfl v _ v rfl

theorem checked {check : Except (Failure FormatError) α} :
    Follows (liftM check : Decoder α) (liftM check : Decoder α) see := by
  intro v a w ran
  cases check with
  | error failure => cases ran
  | ok value =>
    cases ran
    exact Follows.pure rfl v _ v rfl

theorem ite {c : Prop} [Decidable c] {leader' follower' : Decoder α}
    (met : c → Follows leader follower see) (unmet : ¬ c → Follows leader' follower' see) :
    Follows (if c then leader else leader') (if c then follower else follower') see := by
  by_cases known : c
  · rw [if_pos known, if_pos known]
    exact met known
  · rw [if_neg known, if_neg known]
    exact unmet known

/-- A check in front of the rest of a decoder. -/
theorem check {c : Prop} [Decidable c] {reason reason' : Corruption}
    (rest : Follows leader follower see) :
    Follows (if c then (do let () ← corrupt reason; leader) else leader)
      (if c then (do let () ← corrupt reason'; follower) else follower) see := by
  apply ite
  · intro _ v a w ran
    obtain ⟨_, _, impossible, _⟩ := bind_eq_ok.mp ran
    cases impossible
  · intro _
    exact rest

theorem foldlM {items : List β} {step step' : α → β → Decoder α}
    (each : ∀ a item, Follows (step a item) (step' a item) (id : α → α)) (a : α) :
    Follows (items.foldlM step a) (items.foldlM step' a) (id : α → α) := by
  induction items generalizing a with
  | nil => exact Follows.pure rfl
  | cons item rest ih =>
    rw [List.foldlM_cons, List.foldlM_cons]
    exact (each a item).bind_same ih

theorem forM {items : List β} {step step' : β → Decoder Unit}
    (each : ∀ item, Follows (step item) (step' item) (id : Unit → Unit)) :
    Follows (items.forM step) (items.forM step') (id : Unit → Unit) := by
  induction items with
  | nil => exact Follows.pure rfl
  | cons item rest ih =>
    simp only [List.forM_eq_forM, List.forM_cons]
    exact (each item).bind_same fun _ => ih

end Follows

namespace Delimits

/-- Cursors in front of the same bytes may differ. -/
theorem position : Delimits Decoder.position fun _ => () := by
  intro v a w ran
  cases ran
  refine ⟨[], View.Passes.refl v, ?_, starves_nil _⟩
  intro u tail here
  exact ⟨u.position, u, rfl, View.Passes.refl u, rfl⟩

theorem uint32 : Delimits (Decoder.uint32 what) (id : Nat → Nat) := by
  intro v n w ran
  obtain ⟨four, width, same, passes⟩ := uint32_eq_ok ran
  refine ⟨four, passes, ?_, ?_⟩
  · intro u tail here
    obtain ⟨x, read, moved⟩ := uint32_of_rest here width
    exact ⟨_, x, read, moved, same.symm⟩
  · intro u missing some whole
    have short : u.rest.length < 4 := by
      have total := congrArg List.length whole
      rw [List.length_append, width] at total
      have := List.length_pos_iff.mpr some
      omega
    exact ⟨_, _, u, uint32_of_short short⟩

theorem slice : Delimits (Decoder.slice count what) View.bytes := by
  intro v taken w ran
  obtain ⟨width, _, passes⟩ := slice_eq_ok ran
  refine ⟨taken.bytes, passes, ?_, ?_⟩
  · intro u tail here
    obtain ⟨other, x, read, moved, same, _⟩ := slice_of_rest here width
    exact ⟨other, x, read, moved, same⟩
  · intro u missing some whole
    have short : u.rest.length < count := by
      have total := congrArg List.length whole
      rw [List.length_append, width] at total
      have := List.length_pos_iff.mpr some
      omega
    exact ⟨_, _, u, slice_of_short short⟩

theorem counted : Delimits (Decoder.counted what) View.bytes :=
  uint32.bind_same fun _ => slice

theorem tableSize {width : Nat} : Delimits (Decoder.tableSize count width what) (id : Nat → Nat) :=
  Follows.ite (fun _ => Follows.pure rfl) fun _ => Follows.refuse

theorem offsetCount : Delimits (Decoder.offsetCount count what) (id : Nat → Nat) :=
  Follows.ite (fun _ => Follows.pure rfl) fun _ => Follows.refuse

theorem table {width : Nat} : Delimits (Decoder.table count width what) View.bytes :=
  tableSize.bind_same fun _ => slice

theorem lastOffset {offsetAt : Nat → Except Fault Nat} :
    Delimits (Decoder.lastOffset what count offsetAt) (id : Nat → Nat) := by
  apply Follows.foldlM
  intro previous entry
  apply Follows.lift.bind_same
  intro offset
  exact Follows.ite (fun _ => Follows.refuse) fun _ => Follows.pure rfl

end Delimits

end Decoder

end DocStore
