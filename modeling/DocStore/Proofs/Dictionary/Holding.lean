import DocStore.Dictionary.Basic
import DocStore.Index.ValueTest
import DocStore.Proofs.Outcomes

/-! What a dictionary is: an ascending list of values under searches. `Holds` says it of the
three forms at once; `Safe` is what is left of it when the order of a table was not checked. -/
namespace DocStore

def firstAbove (values : List Bytes) (value : Bytes) (orEqual : Bool) (last : Nat) : Option Nat :=
  (List.range values.length).find? fun rank =>
    rank ≤ last && values[rank]?.any (ValueTest.below orEqual value ·)

def lastBelow (values : List Bytes) (value : Bytes) (orEqual : Bool) (first : Nat) : Option Nat :=
  (List.range values.length).reverse.find? fun rank =>
    first ≤ rank && values[rank]?.any (ValueTest.below orEqual · value)

/-- A number moved into `[start, stop]`, or to `start` if that is past `stop`. -/
def clamp (start stop n : Nat) : Nat := max start (min n (max stop start))

namespace ValueTest

variable {a b value : Bytes} {inclusive : Bool}

theorem below_of_lt (order : a < b) (below : below inclusive b value = true) :
    ValueTest.below inclusive a value = true := by
  cases inclusive with
  | false =>
    simp only [ValueTest.below, Bool.false_eq_true, if_false, decide_eq_true_eq] at below ⊢
    exact List.lt_trans order below
  | true =>
    simp only [ValueTest.below, if_true, decide_eq_true_eq] at below ⊢
    exact List.le_of_lt (Std.lt_of_lt_of_le order below)

theorem below_not : ValueTest.below (!inclusive) value a = !ValueTest.below inclusive a value := by
  cases inclusive with
  | false => simp [ValueTest.below, ← List.not_lt]
  | true => simp [ValueTest.below, ← List.not_lt]

end ValueTest

/-- In an ascending list the values that pass a downward closed test come first. -/
theorem passes_iff_lt_countP {passes : Bytes → Bool} {values : List Bytes}
    (ascending : values.Pairwise (· < ·)) (closed : ∀ a b, a < b → passes b → passes a)
    {rank : Nat} (inside : rank < values.length) :
    passes values[rank] = decide (rank < values.countP passes) := by
  induction values generalizing rank with
  | nil => exact absurd inside (Nat.not_lt_zero _)
  | cons head rest ih =>
    obtain ⟨least, ascending⟩ := List.pairwise_cons.mp ascending
    cases first : passes head with
    | true =>
      rw [List.countP_cons_of_pos first]
      cases rank with
      | zero => simpa using first
      | succ rank =>
        rw [List.getElem_cons_succ, ih ascending (by simpa using inside)]
        simp only [Nat.add_lt_add_iff_right]
    | false =>
      have none : ∀ value ∈ rest, ¬ passes value := fun value later passed => by
        rw [closed head value (least value later) passed] at first
        contradiction
      rw [List.countP_cons_of_neg (by simp [first]), List.countP_eq_zero.mpr none]
      cases rank with
      | zero => simpa using first
      | succ rank =>
        simpa using none _ (List.getElem_mem (by simpa using inside))

section PartitionPoint

variable {isBelow : Nat → Except Fault Bool} {low high : Nat}

theorem partitionPoint_of_lt (more : low < high) (room : high < sizeLimit) :
    partitionPoint isBelow low high = (isBelow (low + (high - low) / 2) >>= fun below =>
      if below then partitionPoint isBelow (low + (high - low) / 2 + 1) high
      else partitionPoint isBelow low (low + (high - low) / 2)) := by
  rw [partitionPoint, dif_pos more, subSizes_of_le (Nat.le_of_lt more), ok_bind,
    addSizes_of_lt (by omega), ok_bind]
  refine bind_congr fun below => ?_
  rw [addSizes_of_lt (by omega), ok_bind]

theorem partitionPoint_exists (room : high < sizeLimit)
    (answers : ∀ rank, low ≤ rank → rank < high → ∃ answer, isBelow rank = .ok answer) :
    ∃ rank, partitionPoint isBelow low high = .ok rank ∧ low ≤ rank ∧ rank ≤ max low high := by
  induction low, high using partitionPoint.induct with
  | case1 low high more middle below above =>
    obtain ⟨answer, answered⟩ := answers middle (by omega) (by omega)
    rw [partitionPoint_of_lt more room, answered, ok_bind]
    cases answer with
    | true =>
      obtain ⟨rank, found, lower, upper⟩ :=
        below room fun rank _ _ => answers rank (by omega) (by omega)
      exact ⟨rank, found, by omega, by omega⟩
    | false =>
      obtain ⟨rank, found, lower, upper⟩ :=
        above (by omega) fun rank _ _ => answers rank (by omega) (by omega)
      exact ⟨rank, found, by omega, by omega⟩
  | case2 low high done =>
    rw [partitionPoint, dif_neg done]
    exact ⟨low, rfl, Nat.le_refl _, Nat.le_max_left _ _⟩

theorem partitionPoint_eq {point : Nat} (room : high < sizeLimit)
    (known : ∀ rank, low ≤ rank → rank < high → isBelow rank = .ok (decide (rank < point))) :
    partitionPoint isBelow low high = .ok (clamp low high point) := by
  induction low, high using partitionPoint.induct with
  | case1 low high more middle below above =>
    rw [partitionPoint_of_lt more room, known middle (by omega) (by omega), ok_bind]
    by_cases lower : middle < point
    · rw [if_pos (by simpa using lower), below room fun rank _ _ => known rank (by omega) (by omega)]
      exact congrArg Except.ok (by unfold clamp; omega)
    · rw [if_neg (by simpa using lower),
        above (by omega) fun rank _ _ => known rank (by omega) (by omega)]
      exact congrArg Except.ok (by unfold clamp; omega)
  | case2 low high done =>
    rw [partitionPoint, dif_neg done]
    exact congrArg Except.ok (by unfold clamp; omega)

end PartitionPoint

theorem countP_le_eq {values : List Bytes} (ascending : values.Pairwise (· < ·)) (value : Bytes) :
    values.countP (· ≤ value) = values.countP (· < value) + (values.contains value).toNat := by
  induction values with
  | nil => rfl
  | cons head rest ih =>
    obtain ⟨least, ascending⟩ := List.pairwise_cons.mp ascending
    rw [List.countP_cons, List.countP_cons, ih ascending, List.contains_cons]
    by_cases same : head = value
    · subst same
      have absent : head ∉ rest := fun later => List.lt_irrefl _ (least head later)
      simp [absent, List.lt_irrefl]
    · have sides : head ≤ value ↔ head < value :=
        ⟨fun le => (List.le_iff_lt_or_eq.mp le).resolve_right same, List.le_of_lt⟩
      simp only [sides, beq_false_of_ne (Ne.symm same), Bool.false_or]
      omega

theorem idxOf?_eq_of_ascending {values : List Bytes} (ascending : values.Pairwise (· < ·))
    (value : Bytes) : values.idxOf? value =
      if values.contains value then some (values.countP (· < value)) else none := by
  induction values with
  | nil => rfl
  | cons head rest ih =>
    obtain ⟨least, ascending⟩ := List.pairwise_cons.mp ascending
    rw [List.idxOf?_cons, ih ascending]
    by_cases same : head = value
    · subst same
      have none : rest.countP (· < head) = 0 := List.countP_eq_zero.mpr fun value later => by
        simpa using List.le_of_lt (least value later)
      rw [if_pos BEq.rfl, List.countP_cons_of_neg (by simp [List.lt_irrefl]), none]
      simp
    · by_cases later : value ∈ rest
      · rw [List.countP_cons_of_pos (by simpa using least value later)]
        simp [later, same]
      · simp [later, same, Ne.symm same]

section Scans

variable {values : List Bytes} {value : Bytes} {orEqual : Bool}

theorem getElem?_any_eq {passes : Bytes → Bool} {rank : Nat} (inside : rank < values.length) :
    values[rank]?.any passes = passes values[rank] := by
  rw [List.getElem?_eq_getElem inside, Option.any_some]

theorem firstAbove_eq (ascending : values.Pairwise (· < ·)) (last : Nat) :
    firstAbove values value orEqual last =
      let point := values.countP (ValueTest.below (!orEqual) · value)
      if point < values.length ∧ point ≤ last then some point else none := by
  have reached : ∀ rank, (inside : rank < values.length) →
      ValueTest.below orEqual value values[rank] =
        !decide (rank < values.countP (ValueTest.below (!orEqual) · value)) := fun rank inside => by
    rw [← passes_iff_lt_countP ascending (fun a b => ValueTest.below_of_lt) inside,
      ← ValueTest.below_not, Bool.not_not]
  simp only [firstAbove]
  split
  · rename_i found
    refine List.find?_range_eq_some.mpr ⟨?_, List.mem_range.mpr found.1, fun rank earlier => ?_⟩
    · rw [getElem?_any_eq found.1, reached _ found.1]
      simpa using found.2
    · rw [getElem?_any_eq (by omega), reached rank (by omega)]
      simp [earlier]
  · rename_i absent
    refine List.find?_eq_none.mpr fun rank inside => ?_
    have inside := List.mem_range.mp inside
    rw [getElem?_any_eq inside, reached rank inside]
    simp
    omega

theorem find?_reverse_range {passes : Nat → Bool} {first point n : Nat} (bound : point ≤ n)
    (known : ∀ rank < n, passes rank = decide (first ≤ rank ∧ rank < point)) :
    (List.range n).reverse.find? passes = if first < point then some (point - 1) else none := by
  induction n with
  | zero =>
    rw [if_neg (by omega)]
    rfl
  | succ n ih =>
    rw [List.range_succ, List.reverse_append, List.reverse_singleton, List.singleton_append]
    by_cases top : first ≤ n ∧ n < point
    · rw [List.find?_cons_of_pos (by rw [known n (by omega)]; simpa using top),
        if_pos (by omega)]
      exact congrArg some (by omega)
    · rw [List.find?_cons_of_neg (by rw [known n (by omega)]; simpa using top)]
      by_cases below : point ≤ n
      · exact ih below fun rank inside => known rank (by omega)
      · rw [if_neg (by omega)]
        refine List.find?_eq_none.mpr fun rank inside => ?_
        have inside := List.mem_range.mp (List.mem_reverse.mp inside)
        rw [known rank (by omega)]
        simp
        omega

theorem lastBelow_eq (ascending : values.Pairwise (· < ·)) (first : Nat) :
    lastBelow values value orEqual first =
      let point := values.countP (ValueTest.below orEqual · value)
      if first < point then some (point - 1) else none := by
  refine find?_reverse_range List.countP_le_length fun rank inside => ?_
  rw [getElem?_any_eq inside,
    passes_iff_lt_countP ascending (fun a b => ValueTest.below_of_lt) inside, Bool.decide_and]

theorem firstAbove_le (ascending : values.Pairwise (· < ·)) {rank last : Nat}
    (inside : rank < values.length) (bound : rank ≤ last) :
    (∃ start ∈ firstAbove values value orEqual last, start ≤ rank) ↔
      ValueTest.below orEqual value values[rank] = true := by
  have flipped := @ValueTest.below_not values[rank] value (!orEqual)
  rw [Bool.not_not] at flipped
  rw [firstAbove_eq ascending, flipped,
    passes_iff_lt_countP ascending (fun a b => ValueTest.below_of_lt) inside]
  simp only [Bool.not_eq_true', decide_eq_false_iff_not, Nat.not_lt, Option.mem_def,
    Option.ite_none_right_eq_some, Option.some.injEq]
  constructor
  · rintro ⟨_, ⟨_, rfl⟩, lower⟩
    exact lower
  · exact fun lower => ⟨_, ⟨⟨by omega, by omega⟩, rfl⟩, lower⟩

theorem le_lastBelow (ascending : values.Pairwise (· < ·)) {rank first : Nat}
    (inside : rank < values.length) (bound : first ≤ rank) :
    (∃ top ∈ lastBelow values value orEqual first, rank ≤ top) ↔
      ValueTest.below orEqual values[rank] value = true := by
  rw [lastBelow_eq ascending,
    passes_iff_lt_countP ascending (fun a b => ValueTest.below_of_lt) inside]
  simp only [decide_eq_true_eq, Option.mem_def, Option.ite_none_right_eq_some, Option.some.injEq]
  constructor
  · rintro ⟨_, ⟨_, rfl⟩, upper⟩
    omega
  · exact fun upper => ⟨_, ⟨by omega, rfl⟩, by omega⟩

end Scans

theorem idxOf?_getElem {values : List Bytes} (ascending : values.Pairwise (· < ·)) {rank : Nat}
    (inside : rank < values.length) : values.idxOf? values[rank] = some rank := by
  refine List.idxOf?_eq_some_iff.mpr ⟨inside, rfl, fun earlier before same => ?_⟩
  have lower := List.pairwise_iff_getElem.mp ascending earlier rank (by omega) inside before
  rw [same] at lower
  exact List.lt_irrefl _ lower

theorem idxOf?_eq_some_iff {values : List Bytes} (ascending : values.Pairwise (· < ·))
    {value : Bytes} {rank : Nat} : values.idxOf? value = some rank ↔ values[rank]? = some value := by
  constructor
  · intro found
    obtain ⟨inside, same, _⟩ := List.idxOf?_eq_some_iff.mp found
    exact List.getElem?_eq_some_iff.mpr ⟨inside, same⟩
  · intro known
    obtain ⟨inside, rfl⟩ := List.getElem?_eq_some_iff.mp known
    exact idxOf?_getElem ascending inside

namespace Dictionary

/-- A dictionary is an ascending list of values under searches by value and by window. -/
structure Holds (d : Dictionary) (values : List Bytes) : Prop where
  ascending : values.Pairwise (· < ·)
  size : d.size = values.length
  room : values.length < sizeLimit
  get : ∀ (rank : Nat) (inside : rank < values.length), d.get rank = .ok values[rank]
  search : ∀ value skipEqual start stop, stop ≤ values.length →
    d.search value skipEqual start stop =
      .ok (clamp start stop (values.countP (ValueTest.below skipEqual · value)))
  rank? : ∀ value, d.rank? value = .ok (values.idxOf? value)

/-- Nothing asked of a dictionary within its size meets a fault or answers past it. -/
structure Safe (d : Dictionary) : Prop where
  room : d.size < sizeLimit
  get : ∀ rank < d.size, ∃ value, d.get rank = .ok value
  search : ∀ value skipEqual start stop, stop ≤ d.size →
    ∃ rank, d.search value skipEqual start stop = .ok rank ∧ start ≤ rank ∧ rank ≤ max start stop
  rank? : ∀ value, ∃ rank, d.rank? value = .ok rank ∧ ∀ found ∈ rank, found < d.size

variable {d : Dictionary} {values : List Bytes}

theorem Holds.safe (holds : d.Holds values) : d.Safe where
  room := holds.size ▸ holds.room
  get rank inside := ⟨_, holds.get rank (holds.size ▸ inside)⟩
  search value skipEqual start stop inside := by
    refine ⟨_, holds.search value skipEqual start stop (holds.size ▸ inside), ?_, ?_⟩
    · exact Nat.le_max_left _ _
    · unfold clamp
      omega
  rank? value := by
    refine ⟨_, holds.rank? value, fun found listed => ?_⟩
    rw [holds.size]
    exact (List.idxOf?_eq_some_iff.mp listed).1

theorem Safe.lowestAbove (safe : d.Safe) (value : Bytes) (orEqual : Bool) (last : Nat) :
    ∃ rank, d.lowestAbove value orEqual last = .ok rank ∧ ∀ found ∈ rank, found < d.size := by
  unfold Dictionary.lowestAbove
  split
  · exact ⟨none, rfl, by simp⟩
  · have room := safe.room
    obtain ⟨rank, found, _, _⟩ := safe.search value (!orEqual) 0 (min last (d.size - 1) + 1)
      (by omega)
    rw [subSizes_of_le (by omega), ok_bind]
    simp only [addSizes_of_lt (show min last (d.size - 1) + 1 < sizeLimit by omega), found, ok_bind]
    refine ⟨_, rfl, ?_⟩
    split
    · rintro _ ⟨⟩
      omega
    · simp

theorem Safe.highestBelow (safe : d.Safe) (value : Bytes) (orEqual : Bool) (first : Nat) :
    ∃ rank, d.highestBelow value orEqual first = .ok rank ∧ ∀ found ∈ rank, found < d.size := by
  unfold Dictionary.highestBelow
  split
  · exact ⟨none, rfl, by simp⟩
  · obtain ⟨rank, found, _, _⟩ := safe.search value orEqual first d.size (Nat.le_refl _)
    rw [found, ok_bind]
    split
    · rw [subSizes_of_le (by omega)]
      refine ⟨_, rfl, ?_⟩
      rintro _ ⟨⟩
      omega
    · exact ⟨none, rfl, by simp⟩

theorem Holds.lowestAbove_eq (holds : d.Holds values) (value : Bytes) (orEqual : Bool)
    (last : Nat) : d.lowestAbove value orEqual last = .ok (firstAbove values value orEqual last) := by
  rw [firstAbove_eq holds.ascending, Dictionary.lowestAbove, holds.size]
  by_cases empty : values.length = 0
  · rw [if_pos empty, if_neg (by omega)]
    rfl
  · have room := holds.room
    rw [if_neg empty, subSizes_of_le (by omega), ok_bind]
    simp only [addSizes_of_lt (show min last (values.length - 1) + 1 < sizeLimit by omega),
      holds.search value (!orEqual) 0 (min last (values.length - 1) + 1) (by omega), ok_bind, clamp]
    generalize values.countP (ValueTest.below (!orEqual) · value) = point
    by_cases found : point < values.length ∧ point ≤ last
    · rw [if_pos (by omega), if_pos found]
      exact congrArg (Except.ok ∘ some) (by omega)
    · rw [if_neg (by omega), if_neg found]
      rfl

theorem Holds.highestBelow_eq (holds : d.Holds values) (value : Bytes) (orEqual : Bool)
    (first : Nat) : d.highestBelow value orEqual first = .ok (lastBelow values value orEqual first) := by
  have bound := List.countP_le_length (p := (ValueTest.below orEqual · value)) (l := values)
  rw [lastBelow_eq holds.ascending, Dictionary.highestBelow, holds.size]
  by_cases past : values.length ≤ first
  · rw [if_pos past, if_neg (by omega)]
    rfl
  · rw [if_neg past]
    simp only [holds.search value orEqual first values.length (Nat.le_refl _), ok_bind, clamp]
    generalize values.countP (ValueTest.below orEqual · value) = point at bound
    by_cases found : first < point
    · rw [if_pos (by omega), if_pos found, subSizes_of_le (by omega)]
      exact congrArg (Except.ok ∘ some) (by omega)
    · rw [if_neg (by omega), if_neg found]
      rfl

end Dictionary

end DocStore
