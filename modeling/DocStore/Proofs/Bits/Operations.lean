import Mathlib.Data.Finset.Sort
import Mathlib.Order.Bounds.Defs
import DocStore.Proofs.Bits.Members
import DocStore.Proofs.Views

/-! Stored sets as finite sets. Whatever was done to a set, in whatever order and with whatever
operands, its words hold the finite set that the same operations on finite sets lead to. A full
set of which 64 bits cannot count the words is the one operand that cannot be read. -/
namespace DocStore

/-- The numbers of the bits that are set in `count` words of 64 bits stored from an offset on: the
bit for `i` is bit `i % 8` of byte `i / 8`. -/
def View.bitsAt (v : View) (offset count : Nat) : Finset Nat :=
  (Finset.range (count * 64)).filter fun i =>
    (v.bytes.getD (offset + i / 8) 0).toNat.testBit (i % 8)

theorem View.hasBit_stored (v : View) (offset i : Nat) :
    Word.hasBit (UInt64.ofNat (Bytes.value (v.bytes.sub (offset + i / 64 * 8) 8))) (i % 64) =
      (v.bytes.getD (offset + i / 8) 0).toNat.testBit (i % 8) := by
  have low : i % 64 < 64 := Nat.mod_lt _ (by decide)
  have near : i % 64 / 8 < 8 := by omega
  have place : offset + i / 64 * 8 + i % 64 / 8 = offset + i / 8 := by omega
  rw [Word.hasBit, UInt64.toBitVec_ofNat', BitVec.getLsbD_ofNat, decide_eq_true low, Bool.true_and,
    Bytes.testBit_value, Bytes.sub, List.getD_eq_getElem?_getD, List.getElem?_take_of_lt near,
    List.getElem?_drop, place, ← List.getD_eq_getElem?_getD, show i % 64 % 8 = i % 8 by omega]

def ArraySet.members (s : ArraySet) : Finset Nat :=
  (Finset.range (s.words.size * 64)).filter fun i => Word.hasBit (s.word (i / 64)) (i % 64)

def DocSet.members : DocSet → Finset Nat
  | none _ => ∅
  | all size => Finset.range size
  | stored s => s.members

theorem ArraySet.mem_members {s : ArraySet} {i : Nat} (trimmed : s.Trimmed) :
    i ∈ s.members ↔ i ∈ s := by
  rw [members, Finset.mem_filter, Finset.mem_range, s.words_size, mem_iff]
  apply and_congr_left
  intro bit
  have inside : i < s.size := by
    apply Nat.lt_of_not_le
    intro past
    simp [trimmed i past] at bit
  have := div_lt_wordCount inside
  exact iff_of_true (by omega) inside

theorem DocSet.mem_members {t : DocSet} {i : Nat} (trimmed : ∀ s, t = stored s → s.Trimmed) :
    i ∈ t.members ↔ t.contains i = true := by
  cases t with
  | none size => simp [members, contains]
  | all size => simp [members, contains]
  | stored s => exact ArraySet.mem_members (trimmed s rfl)

namespace ArraySet

variable {s u : ArraySet} {t : DocSet}

inductive Op where
  | insert (index : Nat)
  | erase (index : Nat)
  | clear
  | fill
  | complement
  | inter (other : DocSet)
  | union (other : DocSet)
  | sdiff (other : DocSet)
  | assign (other : DocSet)
  | uniteStored (stored : View) (offset count : Nat)

def settle (s : ArraySet) :
    Except Fault (Option Bool × ArraySet) → Except Fault (Option Bool) × ArraySet
  | .ok (answer, u) => (.ok answer, u)
  | .error fault => (.error fault, s)

namespace Op

def run (s : ArraySet) : Op → Except Fault (Option Bool) × ArraySet
  | insert index => s.settle ((s.insert index).map (none, ·))
  | erase index => (.ok none, s.erase index)
  | clear => (.ok none, s.clear)
  | fill => (.ok none, s.fill)
  | complement => (.ok none, s.complement)
  | inter other => s.settle ((s.inter other).map fun (left, u) => (some left, u))
  | union other => s.settle ((s.union other).map (none, ·))
  | sdiff other => s.settle ((s.sdiff other).map (none, ·))
  | assign other => s.settle ((s.assign other).map (none, ·))
  | uniteStored stored offset count =>
    match s.uniteStored stored offset count with
    | (u, none) => (.ok none, u)
    | (u, some fault) => (.error fault, u)

def operand? : Op → Option DocSet
  | inter other | union other | sdiff other | assign other => some other
  | _ => none

def Inside (s : ArraySet) : Op → Prop
  | uniteStored stored offset count =>
    ∀ k < min count s.words.size, offset + k * 8 + 8 ≤ stored.size
  | _ => True

/-- The words of the operand can be counted, unless none is read. -/
def Countable (op : Op) (s : ArraySet) : Prop :=
  ∀ size, op.operand? = some (.all size) → 0 < s.size → size + 63 < sizeLimit

/-- What an operation makes of the members of a set, before the numbers that the set has no room
for are left out. -/
def image (size : Nat) (m : Finset Nat) : Op → Finset Nat
  | insert index => Insert.insert index m
  | erase index => m.erase index
  | clear => ∅
  | fill => Finset.range size
  | complement => Finset.range size \ m
  | inter other => m ∩ other.members
  | union other => m ∪ other.members
  | sdiff other => m \ other.members
  | assign other => other.members
  | uniteStored stored offset count => m ∪ stored.bitsAt offset count

def answer (size : Nat) (left : Finset Nat) : Op → Except Fault (Option Bool)
  | insert index => if index < size then .ok none else .error (.bitOutOfRange index size)
  | inter _ => .ok (some (decide left.Nonempty))
  | _ => .ok none

structure Meets (op : Op) (s : ArraySet) : Prop where
  size : (op.run s).2.size = s.size
  members : (op.run s).2.members = op.image s.size s.members ∩ Finset.range s.size
  answer : (op.run s).1 = op.answer s.size (op.run s).2.members

end Op

/-- The sets that come from a new, a full or a listed set by operations inside the stored words,
with operands that come about the same way. -/
inductive Reachable : ArraySet → Prop
  | allocate {size : Nat} {s : ArraySet} (made : allocate size = .ok s) : Reachable s
  | full {size : Nat} {s : ArraySet} (made : full size = .ok s) : Reachable s
  | ofList {size : Nat} {indexes : List Nat} {s : ArraySet} (made : ofList size indexes = .ok s) :
    Reachable s
  | run {s : ArraySet} (op : Op) (before : Reachable s)
    (operands : ∀ u, op.operand? = some (.stored u) → Reachable u) (inside : op.Inside s) :
    Reachable (op.run s).2

structure Sound (s : ArraySet) : Prop where
  trimmed : s.Trimmed
  small : s.size + 63 < sizeLimit

/-- A set of words that stands for a finite set: every bit is one of a number below the size, and
what can be asked is answered as for that finite set. -/
structure Faithful (s : ArraySet) : Prop where
  words : wordsFor s.size = .ok s.words.size
  below : ∀ i ∈ s.members, i < s.size
  contains : ∀ i, s.contains i = true ↔ i ∈ s.members
  cardinality : s.cardinality = s.members.card
  next : ∀ start i, s.next? start = some i ↔ IsLeast {j | j ∈ s.members ∧ start ≤ j} i
  last : ∀ start, s.next? start = none ↔ ∀ i ∈ s.members, i < start
  toList : s.toList = s.members.sort
  walk : s.membersFrom 0 = s.members.sort

theorem faithful_of_sound (sound : s.Sound) : s.Faithful := by
  obtain ⟨trimmed, small⟩ := sound
  have sorted : s.toList = s.members.sort := by
    refine eq_of_ascending (toList_ascending trimmed) s.members.sortedLT_sort.pairwise fun i => ?_
    rw [mem_toList trimmed, Finset.mem_sort, mem_members trimmed]
  constructor
  case words => rw [wordsFor_eq small, s.words_size]
  case below =>
    intro i member
    exact lt_of_mem ((mem_members trimmed).mp member)
  case contains =>
    intro i
    exact (mem_members trimmed).symm
  case cardinality => rw [cardinality_eq, sorted, Finset.length_sort]
  case next =>
    intro start i
    simp only [next?_eq_some trimmed, IsLeast, lowerBounds, Set.mem_ofPred_eq, mem_members trimmed,
      and_imp, and_assoc]
  case last =>
    intro start
    simp only [next?_eq_none trimmed, mem_members trimmed]
  case toList => exact sorted
  case walk => rw [membersFrom_zero trimmed, sorted]

namespace Op

variable {op : Op} {i : Nat}

/-- An operation is known by its answer and by the members after it. -/
theorem meets_of_run {answer : Except Fault (Option Bool)} (sound : s.Sound)
    (ran : op.run s = (answer, u)) (size : u.size = s.size) (trimmed : u.Trimmed)
    (members : ∀ i, i ∈ u ↔ i ∈ op.image s.size s.members ∧ i < s.size)
    (answered : answer = op.answer s.size u.members) : (op.run s).2.Sound ∧ op.Meets s := by
  have after : (op.run s).2 = u := congrArg Prod.snd ran
  refine ⟨⟨after ▸ trimmed, by rw [after, size]; exact sound.small⟩, ?_⟩
  constructor
  case size => rw [after, size]
  case members =>
    rw [after]
    ext i
    rw [mem_members trimmed, members, Finset.mem_inter, Finset.mem_range]
  case answer => rw [after, ran, answered]

/-- What is known of an operand whose words can be counted. -/
theorem operand_legible (operand : op.operand? = some t)
    (operands : ∀ u, op.operand? = some (.stored u) → u.Sound) (countable : op.Countable s) :
    (0 < s.size → t.Legible) ∧ ∀ i, i ∈ t.members ↔ t.contains i = true := by
  have trimmed : ∀ u, t = .stored u → u.Trimmed := by
    rintro u rfl
    exact (operands u operand).trimmed
  refine ⟨?_, fun i => DocSet.mem_members trimmed⟩
  intro some
  refine ⟨trimmed, ?_⟩
  rintro size rfl
  exact countable size operand some

theorem meets_insert (sound : s.Sound) (index : Nat) :
    ((insert index).run s).2.Sound ∧ (insert index).Meets s := by
  have inside := @lt_of_mem s
  by_cases below : index < s.size
  · have inserted := insert_eq below
    refine meets_of_run sound (by rw [run, inserted]; rfl) (size_insert inserted)
      (trimmed_insert inserted sound.trimmed) ?_ (by rw [answer, if_pos below])
    intro i
    rw [mem_insert inserted, image, Finset.mem_insert, mem_members sound.trimmed]
    grind
  · have refused : s.insert index = .error (.bitOutOfRange index s.size) := if_neg below
    refine meets_of_run sound (by rw [run, refused]; rfl) rfl sound.trimmed ?_
      (by rw [answer, if_neg below])
    intro i
    rw [image, Finset.mem_insert, mem_members sound.trimmed]
    grind

theorem meets_uniteStored {stored : View} {offset count : Nat} (sound : s.Sound)
    (inside : (uniteStored stored offset count).Inside s) :
    ((uniteStored stored offset count).run s).2.Sound ∧
      (uniteStored stored offset count).Meets s := by
  have reads : ∀ k < min count (wordCount s.size), stored.uint64At (offset + k * 8) =
      .ok (Bytes.value (stored.bytes.sub (offset + k * 8) 8)) := by
    intro k below
    exact View.uint64At_eq (inside k (s.words_size ▸ below))
  obtain ⟨u, added, size, trims, members⟩ := uniteStored_eq reads
  refine meets_of_run sound (by rw [run, added]; rfl) size trims ?_ rfl
  intro i
  have below := @lt_of_mem s i
  have counted : i / 64 < count ↔ i < count * 64 := Nat.div_lt_iff_lt_mul (by decide)
  rw [members, image, Finset.mem_union, mem_members sound.trimmed, View.bitsAt, Finset.mem_filter,
    Finset.mem_range, View.hasBit_stored]
  grind

/-- What one operation does, when it can read its operand. -/
theorem meets (sound : s.Sound) (operands : ∀ u, op.operand? = some (.stored u) → u.Sound)
    (inside : op.Inside s) (countable : op.Countable s) : (op.run s).2.Sound ∧ op.Meets s := by
  have trimmed := sound.trimmed
  have small := sound.small
  cases op with
  | insert index => exact meets_insert sound index
  | erase index =>
    refine meets_of_run sound rfl (size_erase s index) (trimmed_erase trimmed) ?_ rfl
    intro i
    rw [mem_erase, image, Finset.mem_erase, mem_members trimmed]
    exact (and_iff_left_of_imp fun kept => lt_of_mem kept.2).symm
  | clear =>
    refine meets_of_run sound rfl rfl (by rw [clear_eq_empty]; exact trimmed_empty _) ?_ rfl
    intro i
    rw [clear_eq_empty, image]
    simp [not_mem_empty]
  | fill =>
    refine meets_of_run sound rfl rfl (trimmed_fill s) ?_ rfl
    intro i
    rw [mem_fill, image, Finset.mem_range, and_self]
  | complement =>
    refine meets_of_run sound rfl rfl (trimmed_complement s) ?_ rfl
    intro i
    rw [mem_complement, image, Finset.mem_sdiff, Finset.mem_range, mem_members trimmed]
    exact (and_iff_left_of_imp And.left).symm
  | inter other =>
    obtain ⟨legible, theirs⟩ := operand_legible rfl operands countable
    obtain ⟨left, u, met, size, trims, members, some⟩ := inter_eq trimmed legible small
    refine meets_of_run sound (by rw [run, met]; rfl) size trims ?_ ?_
    · intro i
      rw [members, image, Finset.mem_inter, mem_members trimmed, theirs]
      exact (and_iff_left_of_imp fun both => lt_of_mem both.1).symm
    · rw [answer]
      congr 2
      apply Bool.eq_iff_iff.mpr
      rw [some, decide_eq_true_eq, Finset.Nonempty]
      exact exists_congr fun i => (mem_members trims).symm
  | union other =>
    obtain ⟨legible, theirs⟩ := operand_legible rfl operands countable
    obtain ⟨u, joined, size, trims, members⟩ := union_eq legible small
    refine meets_of_run sound (by rw [run, joined]; rfl) size trims ?_ rfl
    intro i
    rw [members, image, Finset.mem_union, mem_members trimmed, theirs]
    have := @lt_of_mem s i
    grind
  | sdiff other =>
    obtain ⟨legible, theirs⟩ := operand_legible rfl operands countable
    obtain ⟨u, removed, size, trims, members⟩ := sdiff_eq trimmed legible small
    refine meets_of_run sound (by rw [run, removed]; rfl) size trims ?_ rfl
    intro i
    rw [members, image, Finset.mem_sdiff, mem_members trimmed, theirs]
    exact (and_iff_left_of_imp fun kept => lt_of_mem kept.1).symm
  | assign other =>
    obtain ⟨legible, theirs⟩ := operand_legible rfl operands countable
    obtain ⟨u, taken, size, trims, members⟩ := assign_eq legible small
    refine meets_of_run sound (by rw [run, taken]; rfl) size trims ?_ rfl
    intro i
    rw [members, image, theirs, and_comm]
  | uniteStored stored offset count => exact meets_uniteStored sound inside

/-- An operand whose words cannot be counted stops the operation before it changes anything. -/
theorem run_uncountable (uncountable : ¬ op.Countable s) : op.run s = (.error .overflow, s) := by
  simp only [Countable, not_forall, Nat.not_lt] at uncountable
  obtain ⟨size, operand, some, large⟩ := uncountable
  have stopped : ∀ f, s.combine f (.all size) = .error .overflow := fun f =>
    combine_uncountable large some
  cases op with
  | insert | erase | clear | fill | complement | uniteStored => cases operand
  | inter other =>
    obtain rfl := Option.some.inj operand
    rw [run, ArraySet.inter, stopped]
    rfl
  | union other =>
    obtain rfl := Option.some.inj operand
    rw [run, ArraySet.union, stopped]
    rfl
  | sdiff other =>
    obtain rfl := Option.some.inj operand
    rw [run, ArraySet.sdiff, stopped]
    rfl
  | assign other =>
    obtain rfl := Option.some.inj operand
    rw [run, ArraySet.assign, stopped]
    rfl

end Op

theorem sound_empty {size : Nat} (small : size + 63 < sizeLimit) : (empty size).Sound :=
  ⟨trimmed_empty size, small⟩

theorem full_eq_ok {size : Nat} (made : full size = .ok s) :
    s.Sound ∧ s.size = size ∧ ∀ i, i ∈ s ↔ i < size := by
  obtain ⟨blank, allocated, filled⟩ := bind_eq_ok.mp made
  obtain ⟨small, rfl⟩ := allocate_eq_ok allocated
  obtain rfl := Except.ok.inj filled
  exact ⟨⟨trimmed_fill _, small⟩, rfl, fun i => mem_fill⟩

theorem ofList_eq_ok {size : Nat} {indexes : List Nat} (made : ofList size indexes = .ok s) :
    s.Sound ∧ s.size = size ∧ ∀ i, i ∈ s ↔ i ∈ indexes ∧ i < size := by
  obtain ⟨blank, allocated, filled⟩ := bind_eq_ok.mp made
  obtain ⟨small, rfl⟩ := allocate_eq_ok allocated
  obtain ⟨u, inserted, same, trimmed, members⟩ := foldl_insert indexes _ (trimmed_empty size)
  obtain rfl : u = s := inserted.symm.trans (Except.ok.inj filled)
  refine ⟨⟨trimmed, by rw [same]; exact small⟩, same, ?_⟩
  intro i
  rw [members]
  exact or_iff_right not_mem_empty

/-- No sequence of operations leaves a bit past the size. -/
theorem Reachable.sound (reachable : s.Reachable) : s.Sound := by
  induction reachable with
  | allocate made =>
    obtain ⟨small, rfl⟩ := allocate_eq_ok made
    exact sound_empty small
  | full made => exact (full_eq_ok made).1
  | ofList made => exact (ofList_eq_ok made).1
  | @run s op before operands inside sound others =>
    by_cases countable : op.Countable s
    · exact (Op.meets sound others inside countable).1
    · rw [Op.run_uncountable countable]
      exact sound

/-- However a set came about, it stands for the finite set of its members, and every operation on
it does what it does to finite sets. Only a full set of which the words cannot be counted is
refused, and that and a number with no room in the set change nothing. -/
theorem Reachable.faithful (reachable : s.Reachable) : s.Faithful ∧
    ∀ op : Op, op.Inside s → (∀ u, op.operand? = some (.stored u) → u.Reachable) →
      (op.Countable s → op.Meets s) ∧
      (¬ op.Countable s → op.run s = (.error .overflow, s)) ∧
      ∀ index, op = .insert index → s.size ≤ index →
        op.run s = (.error (.bitOutOfRange index s.size), s) := by
  refine ⟨faithful_of_sound reachable.sound, ?_⟩
  intro op inside operands
  refine ⟨?_, Op.run_uncountable, ?_⟩
  · intro countable
    exact (Op.meets reachable.sound (fun u operand => (operands u operand).sound) inside
      countable).2
  · rintro index rfl past
    rw [Op.run, insert, if_neg (Nat.not_lt.mpr past)]
    rfl

theorem faithful_pastSize : ∃ s, ofList 70 [3, 64, 200] = .ok s ∧ s.members = {3, 64} ∧
    s.next? 4 = some 64 ∧ ((Op.inter (.all 10)).run s).1 = .ok (some true) ∧
    ((Op.inter (.all 10)).run s).2.members = {3} := by
  have made : ∃ s, ofList 70 [3, 64, 200] = .ok s := ⟨_, rfl⟩
  obtain ⟨s, made⟩ := made
  obtain ⟨faithful, ops⟩ := Reachable.faithful (.ofList made)
  obtain ⟨sound, size, listed⟩ := ofList_eq_ok made
  have members : s.members = {3, 64} := by
    ext i
    rw [mem_members sound.trimmed, listed]
    simp
    omega
  obtain ⟨meets, _⟩ := ops (.inter (.all 10)) trivial (by rintro u ⟨⟩)
  have meets := meets (by rintro size ⟨⟩ _; decide)
  have left : ((Op.inter (.all 10)).run s).2.members = {3} := by
    rw [meets.members, members, size]
    decide
  refine ⟨s, made, members, ?_, ?_, left⟩
  · rw [faithful.next, members]
    constructor
    · simp
    · rintro j ⟨member, after⟩
      simp at member
      omega
  · rw [meets.answer, left]
    rfl

/-- What a set shares with the full set of the greatest size is not kept: that operation meets a
fault. -/
theorem inter_differs_lastSize : ∃ s, ofList 1 [0] = .ok s ∧
    s.members ∩ (DocSet.all 18446744073709551615).members = {0} ∧
    s.inter (.all 18446744073709551615) = .error .overflow := by
  obtain ⟨s, made⟩ : ∃ s, ofList 1 [0] = .ok s := ⟨_, rfl⟩
  obtain ⟨sound, size, listed⟩ := ofList_eq_ok made
  refine ⟨s, made, ?_, ?_⟩
  · ext i
    rw [Finset.mem_inter, mem_members sound.trimmed, listed, DocSet.members, Finset.mem_range]
    simp
    omega
  · rw [inter, combine_uncountable (by decide) (by rw [size]; exact Nat.one_pos)]
    rfl

end ArraySet

end DocStore
