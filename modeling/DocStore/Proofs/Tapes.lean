import DocStore.Proofs.Views

/-! Views as tapes. A tape is a byte string of its own with a cursor in it. However many views were
made from one another, each answers as its tape does and shows bytes of the view it was made from
only. The one access that can fail is moving the cursor: the target is counted from the start of
the shared bytes, and 64 bits do not always hold it. -/
namespace DocStore

structure Tape where
  bytes : Bytes
  position : Nat
  position_le : position ≤ bytes.length
deriving DecidableEq

namespace Tape

def ofBytes (bytes : Bytes) : Tape := ⟨bytes, 0, Nat.zero_le _⟩

def cut? (t : Tape) (offset count : Nat) : Option Tape :=
  if offset + count ≤ t.bytes.length then some (ofBytes (t.bytes.sub offset count)) else none

def next? (t : Tape) (count : Nat) : Option (Bytes × Tape) :=
  if enough : t.position + count ≤ t.bytes.length then
    some (t.bytes.sub t.position count, ⟨t.bytes, t.position + count, enough⟩)
  else
    none

def moveTo (t : Tape) (position : Nat) : Tape :=
  ⟨t.bytes, min position t.bytes.length, Nat.min_le_right _ _⟩

theorem next?_eq_some {t rest : Tape} {count : Nat} {bytes : Bytes}
    (taken : t.next? count = some (bytes, rest)) :
    t.position + count ≤ t.bytes.length ∧ t.bytes.sub t.position count = bytes := by
  unfold next? at taken
  split at taken
  · rename_i enough
    exact ⟨enough, (Prod.mk.inj (Option.some.inj taken)).1⟩
  · contradiction

end Tape

inductive Access where
  | slice (offset count : Nat)
  | sliceFrom (offset : Nat)
  | readSlice (count : Nat)
  | readUInt32
  | readUInt64
  | skip (count : Nat)
  | setPosition (position : Nat)
  | clone

namespace Access

inductive Reply where
  | done
  | number (value : Nat)
  | short
deriving DecidableEq

/-- The reply to an access, what became of the thing that was accessed, and what was made of it. -/
structure Turn (β : Type) where
  reply : Reply
  after : β
  made : Option β

variable {β γ : Type}

def Turn.map (f : β → γ) (turn : Turn β) : Turn γ := ⟨turn.reply, f turn.after, turn.made.map f⟩

def Turn.making (before : β) : Option (β × β) → Turn β
  | some (made, after) => ⟨.done, after, some made⟩
  | none => ⟨.short, before, none⟩

def Turn.reading (before : β) : Option (Reply × β) → Turn β
  | some (reply, after) => ⟨reply, after, none⟩
  | none => ⟨.short, before, none⟩

def onView (v : View) : Access → Except Fault (Turn View)
  | slice offset count => .ok (.making v ((v.slice? offset count).map (·, v)))
  | sliceFrom offset => .ok (.making v ((v.sliceFrom? offset).map (·, v)))
  | readSlice count => .ok (.making v (v.readSlice? count))
  | readUInt32 => .ok (.reading v (v.readUInt32?.map fun (n, rest) => (.number n, rest)))
  | readUInt64 => .ok (.reading v (v.readUInt64?.map fun (n, rest) => (.number n, rest)))
  | skip count => .ok (.reading v ((v.skip? count).map (.done, ·)))
  | setPosition position => (v.setPosition position).map (⟨.done, ·, none⟩)
  | clone => .ok ⟨.done, v, some v⟩

def onTape (t : Tape) : Access → Turn Tape
  | slice offset count => .making t ((t.cut? offset count).map (·, t))
  | sliceFrom offset => .making t ((t.cut? offset (t.bytes.length - offset)).map (·, t))
  | readSlice count => .making t ((t.next? count).map fun (bytes, rest) => (.ofBytes bytes, rest))
  | readUInt32 => .reading t ((t.next? 4).map fun (bytes, rest) => (.number (Bytes.value bytes), rest))
  | readUInt64 => .reading t ((t.next? 8).map fun (bytes, rest) => (.number (Bytes.value bytes), rest))
  | skip count => .reading t ((t.next? count).map fun (_, rest) => (.done, rest))
  | setPosition position => ⟨.done, t.moveTo position, none⟩
  | clone => ⟨.done, t, some t⟩

/-- One access to one of some things. What is made of it takes the next free place. -/
def turn (act : β → Access → Except Fault (Turn β)) (desk : List β) (place : Nat)
    (access : Access) : Except Fault Reply × List β :=
  match desk[place]? with
  | none => (.ok .short, desk)
  | some before =>
    match act before access with
    | .ok turn => (.ok turn.reply, desk.set place turn.after ++ turn.made.toList)
    | .error fault => (.error fault, desk)

/-- The replies to accesses one after the other, also after one that failed, and what is there at
the end. -/
def session (act : β → Access → Except Fault (Turn β)) (desk : List β) :
    List (Nat × Access) → List (Except Fault Reply) × List β
  | [] => ([], desk)
  | (place, access) :: rest =>
    let first := turn act desk place access
    let others := session act first.2 rest
    (first.1 :: others.1, others.2)

end Access

namespace View

variable {v w u : View} {offset count position : Nat}

def tape (v : View) : Tape := ⟨v.bytes, v.position, by rw [length_bytes]; exact v.position_le⟩

structure Inside (w v : View) : Prop where
  data : w.data = v.data
  start : v.start ≤ w.start
  stop : w.start + w.size ≤ v.start + v.size

theorem Inside.refl (v : View) : v.Inside v := ⟨rfl, Nat.le_refl _, Nat.le_refl _⟩

theorem Inside.trans (inner : w.Inside v) (outer : v.Inside u) : w.Inside u where
  data := inner.data.trans outer.data
  start := Nat.le_trans outer.start inner.start
  stop := Nat.le_trans inner.stop outer.stop

theorem Inside.bytes_eq (inside : w.Inside v) :
    w.bytes = v.bytes.sub (w.start - v.start) w.size := by
  obtain ⟨data, start, stop⟩ := inside
  rw [← window_eq (by omega), bytes, window, window, data, Nat.add_zero, Nat.add_sub_cancel' start]

theorem inside_slice (cut : v.slice? offset count = some w) : w.Inside v := by
  unfold slice? at cut
  split at cut
  · obtain rfl := Option.some.inj cut
    exact ⟨rfl, Nat.le_add_right _ _, by dsimp only; omega⟩
  · contradiction

theorem inside_skip (moved : v.skip? count = some w) : w.Inside v := by
  unfold skip? at moved
  split at moved
  · obtain rfl := Option.some.inj moved
    exact ⟨rfl, Nat.le_refl _, Nat.le_refl _⟩
  · contradiction

theorem tape_slice : (v.slice? offset count).map tape = v.tape.cut? offset count := by
  have length := v.length_bytes
  by_cases inside : offset + count ≤ v.size
  · obtain ⟨w, cut⟩ := slice?_exists inside
    obtain ⟨_, _, position, _, bytes⟩ := slice?_eq_some cut
    rw [cut, Tape.cut?, if_pos (by simpa only [tape, length] using inside), Option.map_some]
    simp only [tape, Tape.ofBytes, position, bytes]
  · rw [slice?, dif_neg inside, Tape.cut?, if_neg (by simpa only [tape, length] using inside),
      Option.map_none]

theorem tape_sliceFrom :
    (v.sliceFrom? offset).map tape = v.tape.cut? offset (v.tape.bytes.length - offset) := by
  have length : v.tape.bytes.length = v.size := v.length_bytes
  rw [sliceFrom?, length]
  split
  · exact tape_slice
  · rw [Option.map_none, Tape.cut?, if_neg (by omega)]

/-- A read takes the next bytes and moves the cursor behind them. -/
theorem tape_read :
    (v.read? count).map (fun (bytes, rest) => (bytes, rest.tape)) = v.tape.next? count := by
  have length := v.length_bytes
  rw [read?, skip?, Tape.next?]
  by_cases enough : v.position + count ≤ v.size
  · rw [dif_pos enough, dif_pos (by simpa only [tape, length] using enough)]
    simp only [Option.map_some, window_eq enough]
    rfl
  · rw [dif_neg enough, dif_neg (by simpa only [tape, length] using enough)]
    rfl

theorem tape_skip : (v.skip? count).map tape = (v.tape.next? count).map Prod.snd := by
  rw [← tape_read, read?, Option.map_map, Option.map_map]
  rfl

/-- The next bytes as a view of their own. -/
theorem tape_readSlice : (v.readSlice? count).map (fun (taken, rest) => (taken.tape, rest.tape)) =
    (v.tape.next? count).map fun (bytes, rest) => (.ofBytes bytes, rest) := by
  have cut : (v.slice? v.position count).map tape = v.tape.cut? v.tape.position count := tape_slice
  have moved := @tape_skip v count
  cases next : v.tape.next? count with
  | none =>
    rw [next, Option.map_none, Option.map_eq_none_iff] at moved
    rw [readSlice?, moved]
    cases v.slice? v.position count <;> rfl
  | some pair =>
    obtain ⟨bytes, rest⟩ := pair
    obtain ⟨enough, taken⟩ := Tape.next?_eq_some next
    rw [Tape.cut?, if_pos enough, taken] at cut
    rw [next, Option.map_some] at moved
    obtain ⟨piece, known, same⟩ := Option.map_eq_some_iff.mp cut
    obtain ⟨after, known', same'⟩ := Option.map_eq_some_iff.mp moved
    rw [readSlice?, known, known']
    simp only [Option.bind_eq_bind, Option.bind_some, Option.pure_def, Option.map_some, same, same']

theorem setPosition_eq (fits : v.start + position < sizeLimit) :
    (v.setPosition position).map tape = .ok (v.tape.moveTo position) := by
  rw [setPosition, addSizes_of_lt fits]
  simp only [ok_bind, pure_eq_ok, Except.map, tape, Tape.moveTo, length_bytes]
  rfl

theorem inside_setPosition (moved : v.setPosition position = .ok w) : w.Inside v := by
  obtain ⟨_, _, same⟩ := bind_eq_ok.mp moved
  cases same
  exact ⟨rfl, Nat.le_refl _, Nat.le_refl _⟩

theorem setPosition_overflow (large : sizeLimit ≤ v.start + position) :
    v.setPosition position = .error .overflow := by
  rw [setPosition, addSizes, if_neg (Nat.not_lt.mpr large), error_bind]

end View

namespace Access

variable {β γ : Type} {v : View} {access : Access}

theorem map_making {before : β} {f : β → γ} (made : Option (β × β)) :
    (Turn.making before made).map f = .making (f before) (made.map fun (b, c) => (f b, f c)) := by
  cases made <;> rfl

theorem map_reading {before : β} {f : β → γ} (read : Option (Reply × β)) :
    (Turn.reading before read).map f = .reading (f before) (read.map fun (r, b) => (r, f b)) := by
  cases read <;> rfl

/-- Moving the cursor to a place that 64 bits cannot count from the start of the shared bytes. -/
def Overflows (v : View) (access : Access) : Prop :=
  ∃ position, access = .setPosition position ∧ sizeLimit ≤ v.start + position

/-- An access to a view is the same access to its tape. -/
theorem onView_eq (fits : ¬ access.Overflows v) :
    (access.onView v).map (Turn.map View.tape) = .ok (access.onTape v.tape) := by
  cases access with
  | slice offset count =>
    simp only [onView, onTape, Except.map, map_making, Option.map_map, ← View.tape_slice]
    rfl
  | sliceFrom offset =>
    simp only [onView, onTape, Except.map, map_making, Option.map_map, ← View.tape_sliceFrom]
    rfl
  | readSlice count =>
    simp only [onView, onTape, Except.map, map_making, ← View.tape_readSlice]
  | readUInt32 =>
    simp only [onView, onTape, Except.map, map_reading, Option.map_map, View.readUInt32?,
      ← View.tape_read]
    rfl
  | readUInt64 =>
    simp only [onView, onTape, Except.map, map_reading, Option.map_map, View.readUInt64?,
      ← View.tape_read]
    rfl
  | skip count =>
    have moved := congrArg (Option.map (Reply.done, ·)) (@View.tape_skip v count)
    simp only [Option.map_map] at moved
    simp only [onView, onTape, Except.map, map_reading, Option.map_map]
    exact congrArg (fun read => Except.ok (Turn.reading v.tape read)) moved
  | setPosition position =>
    have below : v.start + position < sizeLimit :=
      Nat.lt_of_not_le fun large => fits ⟨position, rfl, large⟩
    have moved := View.setPosition_eq below
    cases known : v.setPosition position with
    | error fault =>
      rw [known] at moved
      cases moved
    | ok w =>
      rw [known] at moved
      simp only [onView, onTape, known, Except.map, Turn.map, Option.map_none, Except.ok.inj moved]
  | clone => rfl

theorem onView_overflow (overflows : access.Overflows v) : access.onView v = .error .overflow := by
  obtain ⟨position, rfl, large⟩ := overflows
  rw [onView, View.setPosition_overflow large]
  rfl

def Turn.Inside (turn : Turn View) (v : View) : Prop :=
  turn.after.Inside v ∧ ∀ w, turn.made = some w → w.Inside v

theorem inside_making {made : Option (View × View)}
    (inside : ∀ w after, made = some (w, after) → w.Inside v ∧ after.Inside v) :
    (Turn.making v made).Inside v := by
  cases made with
  | none => exact ⟨.refl v, nofun⟩
  | some pair =>
    obtain ⟨made, after⟩ := inside pair.1 pair.2 rfl
    exact ⟨after, by rintro _ ⟨⟩; exact made⟩

theorem inside_reading {read : Option (Reply × View)}
    (inside : ∀ reply after, read = some (reply, after) → after.Inside v) :
    (Turn.reading v read).Inside v := by
  cases read with
  | none => exact ⟨.refl v, nofun⟩
  | some pair => exact ⟨inside pair.1 pair.2 rfl, nofun⟩

/-- No access shows a byte that the view does not show. -/
theorem onView_inside {turn : Turn View} (ran : access.onView v = .ok turn) : turn.Inside v := by
  cases access with
  | slice offset count =>
    obtain rfl := Except.ok.inj ran
    refine inside_making fun w after made => ?_
    obtain ⟨_, cut, same⟩ := Option.map_eq_some_iff.mp made
    cases same
    exact ⟨View.inside_slice cut, .refl v⟩
  | sliceFrom offset =>
    obtain rfl := Except.ok.inj ran
    refine inside_making fun w after made => ?_
    obtain ⟨_, cut, same⟩ := Option.map_eq_some_iff.mp made
    cases same
    rw [View.sliceFrom?] at cut
    split at cut
    · exact ⟨View.inside_slice cut, .refl v⟩
    · cases cut
  | readSlice count =>
    obtain rfl := Except.ok.inj ran
    refine inside_making fun w after made => ?_
    obtain ⟨_, cut, others⟩ := Option.bind_eq_some_iff.mp made
    obtain ⟨_, moved, same⟩ := Option.bind_eq_some_iff.mp others
    cases same
    exact ⟨View.inside_slice cut, View.inside_skip moved⟩
  | readUInt32 | readUInt64 =>
    obtain rfl := Except.ok.inj ran
    refine inside_reading fun reply after read => ?_
    simp only [View.readUInt32?, View.readUInt64?, View.read?, Option.map_map,
      Option.map_eq_some_iff] at read
    obtain ⟨_, moved, same⟩ := read
    cases same
    exact View.inside_skip moved
  | skip count =>
    obtain rfl := Except.ok.inj ran
    refine inside_reading fun reply after read => ?_
    obtain ⟨_, moved, same⟩ := Option.map_eq_some_iff.mp read
    cases same
    exact View.inside_skip moved
  | setPosition position =>
    obtain ⟨w, moved, rfl⟩ := map_eq_ok.mp ran
    exact ⟨View.inside_setPosition moved, nofun⟩
  | clone =>
    obtain rfl := Except.ok.inj ran
    exact ⟨.refl v, by rintro _ ⟨⟩; exact .refl v⟩

theorem turn_eq {act : β → Access → Except Fault (Turn β)} {desk : List β} {place : Nat}
    {before : β} {taken : Turn β} (there : desk[place]? = some before)
    (ran : act before access = .ok taken) : turn act desk place access =
      (.ok taken.reply, desk.set place taken.after ++ taken.made.toList) := by
  simp only [turn, there, ran]

/-- What one turn does to views it does to their tapes, unless it overflows. -/
theorem turn_tapes {desk : List View} {place : Nat}
    (calm : (turn onView desk place access).1 ≠ .error .overflow) :
    turn (fun t access => .ok (onTape t access)) (desk.map View.tape) place access =
      (turn onView desk place access).map id (List.map View.tape) := by
  cases there : desk[place]? with
  | none => simp only [turn, List.getElem?_map, there, Option.map_none, Prod.map, id_eq]
  | some v =>
    have fits : ¬ access.Overflows v := fun overflows =>
      calm (by simp only [turn, there, onView_overflow overflows])
    obtain ⟨taken, ran, same⟩ := map_eq_ok.mp (onView_eq fits)
    have there' : (desk.map View.tape)[place]? = some v.tape := by
      rw [List.getElem?_map, there, Option.map_some]
    rw [turn_eq there ran, turn_eq there' (congrArg Except.ok same.symm), Prod.map, List.map_append,
      List.map_set]
    cases made : taken.made <;> simp only [Turn.map, made] <;> rfl

/-- What one turn leaves shows bytes of the views before it. -/
theorem turn_inside {desk : List View} {place : Nat} {w : View}
    (left : w ∈ (turn onView desk place access).2) : ∃ v ∈ desk, w.Inside v := by
  unfold turn at left
  split at left
  · exact ⟨w, left, .refl w⟩
  · rename_i v there
    have member := List.mem_of_getElem? there
    split at left
    · rename_i taken ran
      obtain ⟨after, made⟩ := onView_inside ran
      rcases List.mem_append.mp left with kept | new
      · rcases List.mem_or_eq_of_mem_set kept with kept | rfl
        · exact ⟨w, kept, .refl w⟩
        · exact ⟨v, member, after⟩
      · exact ⟨v, member, made w (Option.mem_toList.mp new)⟩
    · exact ⟨w, left, .refl w⟩

theorem session_inside {script : List (Nat × Access)} {desk : List View} {w : View}
    (left : w ∈ (session onView desk script).2) : ∃ v ∈ desk, w.Inside v := by
  induction script generalizing desk with
  | nil => exact ⟨w, left, .refl w⟩
  | cons first rest ih =>
    obtain ⟨u, between, inner⟩ := ih left
    obtain ⟨v, member, outer⟩ := turn_inside between
    exact ⟨v, member, inner.trans outer⟩

abbrev onTapes (desk : List Tape) (script : List (Nat × Access)) :
    List (Except Fault Reply) × List Tape :=
  session (fun t access => .ok (onTape t access)) desk script

theorem session_tapes {script : List (Nat × Access)} {desk : List View}
    (calm : ∀ reply ∈ (session onView desk script).1, reply ≠ .error .overflow) :
    onTapes (desk.map View.tape) script =
      (session onView desk script).map id (List.map View.tape) := by
  induction script generalizing desk with
  | nil => rfl
  | cons first rest ih =>
    obtain ⟨now, later⟩ := List.forall_mem_cons.mp calm
    have others := @ih (turn onView desk first.1 first.2).2 later
    simp only [onTapes, session, turn_tapes now, Prod.map, id_eq] at others ⊢
    rw [others]

theorem onTapes_calm {script : List (Nat × Access)} {desk : List Tape} :
    ∀ reply ∈ (onTapes desk script).1, reply ≠ .error .overflow := by
  induction script generalizing desk with
  | nil => exact nofun
  | cons first rest ih =>
    refine List.forall_mem_cons.mpr ⟨?_, ih⟩
    unfold turn
    split <;> exact nofun

end Access

/-- A view is used as its tape is, and what is made of it shows bytes of it only. What meets a fault
is just to move the cursor to a place that 64 bits cannot count from the start of the shared
bytes. -/
structure View.Refines (v : View) : Prop where
  position : v.position ≤ v.bytes.length
  remaining : v.remaining = v.bytes.length - v.position
  answers : ∀ access : Access, ¬ access.Overflows v → ∃ turn, access.onView v = .ok turn ∧
    turn.map View.tape = access.onTape v.tape ∧ turn.Inside v
  overflows : ∀ access : Access, access.Overflows v → access.onView v = .error .overflow

theorem View.refines (v : View) : v.Refines where
  position := v.tape.position_le
  remaining := by rw [View.remaining, View.length_bytes]
  answers access fits := by
    obtain ⟨turn, ran, same⟩ := map_eq_ok.mp (Access.onView_eq fits)
    exact ⟨turn, ran, same, Access.onView_inside ran⟩
  overflows _ := Access.onView_overflow

/-- Views made of a byte string in whatever order, with whatever arguments, are tapes on pieces of
it. A session with them goes as the same session with tapes just if it never moves a cursor to a
place that 64 bits cannot count from the start of the byte string. -/
theorem Access.session_refines (bytes : Bytes) (script : List (Nat × Access)) :
    ((∀ reply ∈ (session onView [View.ofBytes bytes] script).1, reply ≠ .error .overflow) ↔
      onTapes [Tape.ofBytes bytes] script =
        (session onView [View.ofBytes bytes] script).map id (List.map View.tape)) ∧
    ∀ v ∈ (session onView [View.ofBytes bytes] script).2,
      v.Refines ∧ v.bytes = bytes.sub v.start v.size ∧ v.start + v.size ≤ bytes.length := by
  have whole : (View.ofBytes bytes).tape = Tape.ofBytes bytes := by
    simp only [View.tape, View.bytes_ofBytes]
    rfl
  refine ⟨⟨fun calm => ?_, fun same => ?_⟩, ?_⟩
  · rw [← whole]
    exact session_tapes calm
  · have calm := @onTapes_calm script [Tape.ofBytes bytes]
    rwa [same] at calm
  · intro v left
    obtain ⟨root, member, inside⟩ := session_inside left
    obtain rfl := List.mem_singleton.mp member
    have piece := inside.bytes_eq
    rw [View.bytes_ofBytes] at piece
    refine ⟨v.refines, piece, ?_⟩
    have bound := inside.stop
    rw [View.size_ofBytes] at bound
    exact Nat.le_trans bound (Nat.le_of_eq (Nat.zero_add _))

def Access.nested : List (Nat × Access) :=
  [(0, .sliceFrom 2), (1, .readUInt32), (1, .readSlice 1), (1, .skip 1),
    (1, .setPosition 18446744073709551613)]

theorem Access.session_refines_nested :
    (session onView [View.ofBytes [9, 9, 1, 0, 0, 0, 7]] nested).1 =
      [.ok .done, .ok (.number 1), .ok .done, .ok .short, .ok .done] ∧
    (onTapes [Tape.ofBytes [9, 9, 1, 0, 0, 0, 7]] nested).2 =
      [Tape.ofBytes [9, 9, 1, 0, 0, 0, 7], (Tape.ofBytes [1, 0, 0, 0, 7]).moveTo 5,
        Tape.ofBytes [7]] ∧
    ∃ v ∈ (session onView [View.ofBytes [9, 9, 1, 0, 0, 0, 7]] nested).2,
      v.Refines ∧ v.tape = Tape.ofBytes [7] := by
  obtain ⟨tapes, each⟩ := session_refines [9, 9, 1, 0, 0, 0, 7] nested
  have replies : (session onView [View.ofBytes [9, 9, 1, 0, 0, 0, 7]] nested).1 =
    [.ok .done, .ok (.number 1), .ok .done, .ok .short, .ok .done] := rfl
  have same := tapes.mp (by rw [replies]; simp)
  obtain ⟨v, last, shown⟩ : ∃ v, (session onView [View.ofBytes [9, 9, 1, 0, 0, 0, 7]] nested).2[2]? =
    some v ∧ v.tape = Tape.ofBytes [7] := ⟨_, rfl, rfl⟩
  have member := List.mem_of_getElem? last
  exact ⟨replies, (congrArg Prod.snd same).trans rfl, v, member, (each v member).1, shown⟩

/-- The greatest position is past the end of every view, but on a view that does not start at the
first byte the cursor is not moved to the end: that meets a fault. -/
theorem Access.setPosition_differs_lastPosition :
    (session onView [View.ofBytes [0]]
      [(0, .slice 1 0), (1, .setPosition 18446744073709551615)]).1 =
        [.ok .done, .error .overflow] ∧
    onTapes [Tape.ofBytes [0]] [(0, .slice 1 0), (1, .setPosition 18446744073709551615)] =
      ([.ok .done, .ok .done], [Tape.ofBytes [0], Tape.ofBytes []]) :=
  ⟨rfl, rfl⟩

end DocStore
