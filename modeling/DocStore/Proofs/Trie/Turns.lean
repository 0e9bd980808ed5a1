import Mathlib.Algebra.BigOperators.Group.List.Basic
import DocStore.Proofs.Trie.Decoding

/-! Loops over a stored tree, turn by turn. The check keeps a stack of nodes and no memory of
those it has seen; a walk follows an edge without looking where it leads. Nothing in a turn
bounds a loop. The check ends because a node shares its count among children that lie before
it, and the walks end on whatever the check let pass. -/
namespace DocStore

section Loops

variable {σ ε α : Type}

/-- What a loop comes to within a number of turns. A turn fails, answers or hands a state to
the next turn; a loop that is still going has come to nothing. -/
def loopWithin (turn : σ → Except ε (α ⊕ σ)) : Nat → σ → Option (Except ε α)
  | 0, _ => none
  | turns + 1, state =>
    match turn state with
    | .error e => some (.error e)
    | .ok (.inl answer) => some (.ok answer)
    | .ok (.inr next) => loopWithin turn turns next

/-- A turn keeps to what its state is to come to, and a state that it hands on is lighter. -/
def Keeping (turn : σ → Except ε (α ⊕ σ)) (comes : σ → Except ε α → Prop) (weight : σ → Nat) :
    Prop :=
  ∀ state outcome, comes state outcome → match turn state with
    | .error e => outcome = .error e
    | .ok (.inl answer) => outcome = .ok answer
    | .ok (.inr next) => comes next outcome ∧ weight next < weight state

theorem Keeping.loopWithin_eq {turn : σ → Except ε (α ⊕ σ)} {comes : σ → Except ε α → Prop}
    {weight : σ → Nat} (keeping : Keeping turn comes weight) {state : σ} {outcome : Except ε α}
    {turns : Nat} (start : comes state outcome) (enough : weight state < turns) :
    loopWithin turn turns state = some outcome := by
  induction turns generalizing state with
  | zero => exact absurd enough (Nat.not_lt_zero _)
  | succ turns ih =>
    have kept := keeping state outcome start
    rw [loopWithin]
    split at kept
    · exact congrArg some kept.symm
    · exact congrArg some kept.symm
    · exact ih kept.1 (by omega)

end Loops

namespace StoredTrie

open TrieNode

variable {nodes : View} {offset parent : Nat} {pending : List Nat}

def checkNode (nodes : View) (offset : Nat) :
    Except (Failure FormatError) (List { child // child < offset }) := do
  let node ← TrieNode.checkedAt nodes offset
  let edges ← node.edges nodes
  let (children, held) ← checkEdges nodes offset none edges
  let total ← addSizes node.hasValue.toNat held
  if node.count = 0 ∨ total ≠ node.count then
    throw (.refused (.corrupt (.nodeCount offset node.count total)))
  return children

/-- One turn of the check: the node on top of the stack gives way to its children, the last of
them on top. -/
def checkTurn (nodes : View) : List Nat → Except (Failure FormatError) (Unit ⊕ List Nat)
  | [] => return .inl ()
  | offset :: pending => do
    let children ← checkNode nodes offset
    return .inr (children.unattach.reverse ++ pending)

/-- A node is checked first, and then its children from the last to the first. -/
theorem checkBelow_eq (nodes : View) (offset : Nat) :
    checkBelow nodes offset = checkNode nodes offset >>= fun children =>
      children.unattach.reverse.forM (checkBelow nodes) := by
  rw [checkBelow, checkNode]
  simp only [bind_assoc]
  refine bind_congr fun node => bind_congr fun edges => bind_congr fun checked =>
    bind_congr fun total => ?_
  by_cases wrong : node.count = 0 ∨ total ≠ node.count
  · simp only [if_pos wrong]
    rfl
  · simp only [if_neg wrong]
    rw [pure_bind, ← List.unattach_reverse]
    exact List.forM_map.symm

def storedCount (nodes : View) (offset : Nat) : Nat := (countAt nodes offset).toOption.getD 0

/-- The values that the nodes on the stack count, each as often as there are offsets up to the
node that counts it. -/
def load (nodes : View) (pending : List Nat) : Nat :=
  (pending.map fun offset => storedCount nodes offset * (offset + 1)).sum

theorem storedCount_eq {count : Nat} (counted : countAt nodes offset = .ok count) :
    storedCount nodes offset = count := by
  rw [storedCount, counted]
  rfl

@[simp] theorem load_cons : load nodes (offset :: pending) =
    storedCount nodes offset * (offset + 1) + load nodes pending := by
  simp [load]

theorem load_stacked (first second : List Nat) :
    load nodes (first.reverse ++ second) = load nodes first + load nodes second := by
  simp [load, List.sum_reverse]

/-- The children of a node stay below it with all they count. -/
theorem load_checkEdges {last : Option UInt8} {edges : List Edge}
    {children : List { child // child < parent }} {held : Nat}
    (accepted : checkEdges nodes parent last edges = .ok (children, held)) :
    load nodes children.unattach ≤ held * parent := by
  induction edges generalizing last children held with
  | nil =>
    cases accepted
    simp [load]
  | cons edge rest ih =>
    unfold checkEdges at accepted
    split at accepted
    · rename_i before
      cases above : last.any (edge.byte ≤ ·) with
      | true =>
        rw [above] at accepted
        contradiction
      | false =>
        rw [above] at accepted
        obtain ⟨_, _, accepted⟩ := bind_eq_ok.mp accepted
        obtain ⟨own, counted, accepted⟩ := bind_eq_ok.mp accepted
        obtain ⟨⟨others, held⟩, checked, accepted⟩ := bind_eq_ok.mp accepted
        obtain ⟨sum, added, accepted⟩ := bind_eq_ok.mp accepted
        obtain ⟨_, rfl⟩ := addSizes_eq_ok.mp (lift_eq_ok.mp added)
        cases accepted
        -- A child lies before its parent, so what it counts comes with one offset less.
        have lower : load nodes others.unattach ≤ held * parent := ih checked
        have here : own * (edge.child + 1) ≤ own * parent := Nat.mul_le_mul_left own before
        rw [List.unattach_cons, load_cons, storedCount_eq (lift_eq_ok.mp counted), Nat.add_mul]
        exact Nat.add_le_add here lower
    · contradiction

/-- A node that is accepted weighs more than all its children. -/
theorem load_checkNode {children : List { child // child < offset }}
    (accepted : checkNode nodes offset = .ok children) :
    load nodes children.unattach < storedCount nodes offset * (offset + 1) := by
  obtain ⟨node, checked, accepted⟩ := bind_eq_ok.mp accepted
  obtain ⟨edges, _, accepted⟩ := bind_eq_ok.mp accepted
  obtain ⟨⟨others, held⟩, climbing, accepted⟩ := bind_eq_ok.mp accepted
  obtain ⟨total, added, accepted⟩ := bind_eq_ok.mp accepted
  obtain ⟨_, rfl⟩ := addSizes_eq_ok.mp (lift_eq_ok.mp added)
  by_cases wrong : node.count = 0 ∨ node.hasValue.toNat + held ≠ node.count
  · simp only [if_pos wrong] at accepted
    contradiction
  · simp only [if_neg wrong] at accepted
    cases accepted
    rw [storedCount_eq (countAt_of_readAt (readAt_of_checkedAt checked).1)]
    calc
      load nodes children.unattach ≤ held * offset := load_checkEdges climbing
      _ ≤ node.count * offset := Nat.mul_le_mul_right offset (by omega)
      _ < node.count * (offset + 1) := Nat.mul_lt_mul_of_pos_left (by omega) (by omega)

/-- The loop of the check comes to what checking the nodes on its stack one after the other
comes to, and its stack gets lighter. -/
theorem checkTurn_keeping (nodes : View) :
    Keeping (checkTurn nodes) (fun pending outcome => outcome = pending.forM (checkBelow nodes))
      (load nodes) := by
  rintro pending outcome rfl
  cases pending with
  | nil => rfl
  | cons offset pending =>
    cases checked : checkNode nodes offset with
    | error e =>
      have failed : checkTurn nodes (offset :: pending) = .error e := by
        rw [checkTurn, checked, error_bind]
      rw [failed, List.forM_eq_forM, List.forM_cons, checkBelow_eq, checked]
      rfl
    | ok children =>
      have went : checkTurn nodes (offset :: pending) =
          .ok (.inr (children.unattach.reverse ++ pending)) := by
        rw [checkTurn, checked, ok_bind]
        rfl
      rw [went]
      constructor
      · rw [List.forM_eq_forM, List.forM_cons, checkBelow_eq, checked, ok_bind]
        exact List.forM_append.symm
      · rw [load_stacked, load_cons]
        exact Nat.add_lt_add_right (load_checkNode checked) _

/-- One turn of the walk by counts, with the node it stands on, the rank it looks for below that
node and the bytes it has passed. -/
def getTurn (nodes : View) : Nat × Nat × Bytes → Except Fault (Bytes ⊕ Nat × Nat × Bytes)
  | (offset, rank, passed) => do
    let node ← TrieNode.readAt nodes offset
    let label ← node.label nodes
    if node.hasValue ∧ rank = 0 then
      return .inl (passed ++ label)
    let edges ← node.edges nodes
    match ← edgeOfRank nodes edges (← subSizes rank node.hasValue.toNat) with
    | some (edge, inner) => return .inr (edge.child, inner, passed ++ label ++ [edge.byte])
    | none => return .inl (passed ++ label)

inductive Getting (nodes : View) : Nat × Nat × Bytes → Except Fault Bytes → Prop where
  | found {offset rank : Nat} {passed value : Bytes}
      (answers : getBelow nodes offset rank = .ok value) :
      Getting nodes (offset, rank, passed) (.ok (passed ++ value))

theorem getTurn_keeping (nodes : View) : Keeping (getTurn nodes) (Getting nodes) (·.1) := by
  rintro _ _ ⟨answers⟩
  rename_i offset rank passed value
  rw [getBelow] at answers
  obtain ⟨node, read, answers⟩ := bind_eq_ok.mp answers
  obtain ⟨label, labelled, answers⟩ := bind_eq_ok.mp answers
  by_cases own : node.hasValue ∧ rank = 0
  · rw [if_pos own] at answers
    cases answers
    simp [getTurn, read, labelled, own]
  · rw [if_neg own] at answers
    obtain ⟨edges, listed, answers⟩ := bind_eq_ok.mp answers
    obtain ⟨inner, less, answers⟩ := bind_eq_ok.mp answers
    obtain ⟨reached, led, answers⟩ := bind_eq_ok.mp answers
    cases reached with
    | none =>
      cases answers
      simp [getTurn, read, labelled, own, listed, less, led]
    | some goal =>
      obtain ⟨edge, inner⟩ := goal
      by_cases before : edge.child < offset
      · simp only [dif_pos before] at answers
        obtain ⟨deeper, found, answers⟩ := bind_eq_ok.mp answers
        cases answers
        have went : getTurn nodes (offset, rank, passed) =
            .ok (.inr (edge.child, inner, passed ++ label ++ [edge.byte])) := by
          simp [getTurn, read, labelled, own, listed, less, led]
        have later : Getting nodes (edge.child, inner, passed ++ label ++ [edge.byte])
            (.ok (passed ++ label ++ [edge.byte] ++ deeper)) := .found found
        rw [went]
        exact ⟨by simpa using later, before⟩
      · simp only [dif_neg before] at answers
        contradiction

/-- One turn of the walk by bytes, with the node it stands on, the bytes left to compare and the
number of smaller values it has passed. -/
def locateTurn (nodes : View) :
    Nat × Bytes × Nat → Except Fault ((Nat × Bool) ⊕ Nat × Bytes × Nat)
  | (offset, rest, below) => do
    let node ← TrieNode.readAt nodes offset
    let label ← node.label nodes
    if label.isPrefixOf rest then
      match rest.drop label.length with
      | [] => return .inl (below, node.hasValue)
      | byte :: tail =>
        let edges ← node.edges nodes
        let smaller := edges.takeWhile (·.byte < byte)
        let passed ← smaller.mapM fun edge => TrieNode.countAt nodes edge.child
        let below ← passed.foldlM addSizes (← addSizes below node.hasValue.toNat)
        match edges.drop smaller.length with
        | edge :: _ =>
          if edge.byte = byte then return .inr (edge.child, tail, below)
          else return .inl (below, false)
        | [] => return .inl (below, false)
    else if label < rest then
      return .inl (← addSizes below node.count, false)
    else
      return .inl (below, false)

inductive Locating (nodes : View) : Nat × Bytes × Nat → Except Fault (Nat × Bool) → Prop where
  | placed {offset below smaller : Nat} {rest : Bytes} {found : Bool}
      (answers : locateBelow nodes offset rest = .ok (smaller, found))
      (room : below + smaller < sizeLimit) :
      Locating nodes (offset, rest, below) (.ok (below + smaller, found))

/-- Sums that fit after some other values are the same sums. -/
theorem addSizes_after {below own passed : Nat} {counts : List Nat}
    (added : counts.foldlM addSizes own = .ok passed) (room : below + passed < sizeLimit) :
    addSizes below own = .ok (below + own) ∧
      counts.foldlM addSizes (below + own) = .ok (below + passed) := by
  have sum := sum_of_foldlM_addSizes added
  constructor
  · exact addSizes_of_lt (by omega)
  · rw [foldlM_addSizes (by omega), Nat.add_assoc, sum]

theorem locateTurn_keeping (nodes : View) :
    Keeping (locateTurn nodes) (Locating nodes) (·.1) := by
  rintro _ _ ⟨answers, room⟩
  rename_i offset below smaller rest found
  rw [locateBelow] at answers
  obtain ⟨node, read, answers⟩ := bind_eq_ok.mp answers
  obtain ⟨label, labelled, answers⟩ := bind_eq_ok.mp answers
  cases starts : label.isPrefixOf rest with
  | false =>
    simp only [starts, Bool.false_eq_true, if_false] at answers
    simp only [locateTurn, read, labelled, starts, ok_bind, Bool.false_eq_true, if_false]
    by_cases above : label < rest
    · rw [if_pos above] at answers ⊢
      cases answers
      rw [addSizes_of_lt room]
      rfl
    · rw [if_neg above] at answers ⊢
      cases answers
      rfl
  | true =>
    simp only [starts, if_true] at answers
    simp only [locateTurn, read, labelled, starts, ok_bind, if_true]
    cases ends : rest.drop label.length with
    | nil =>
      simp only [ends] at answers
      cases answers
      rfl
    | cons byte tail =>
      simp only [ends] at answers
      obtain ⟨edges, listed, answers⟩ := bind_eq_ok.mp answers
      obtain ⟨counts, counted, answers⟩ := bind_eq_ok.mp answers
      obtain ⟨passed, added, answers⟩ := bind_eq_ok.mp answers
      cases reached : edges.drop (edges.takeWhile (·.byte < byte)).length with
      | nil =>
        simp only [reached] at answers
        cases answers
        obtain ⟨own, here⟩ := addSizes_after added room
        simp only [listed, counted, own, here, ok_bind, reached]
        rfl
      | cons edge others =>
        simp only [reached] at answers
        by_cases same : edge.byte = byte
        · by_cases before : edge.child < offset
          · simp only [if_pos same, dif_pos before] at answers
            obtain ⟨⟨more, found⟩, deeper, answers⟩ := bind_eq_ok.mp answers
            obtain ⟨total, sum, answers⟩ := bind_eq_ok.mp answers
            obtain ⟨_, rfl⟩ := addSizes_eq_ok.mp sum
            cases answers
            rw [← Nat.add_assoc] at room ⊢
            obtain ⟨own, here⟩ :=
              addSizes_after added (Nat.lt_of_le_of_lt (Nat.le_add_right _ more) room)
            simp only [listed, counted, own, here, ok_bind, reached, if_pos same]
            exact ⟨.placed deeper room, before⟩
          · simp only [if_pos same, dif_neg before] at answers
            contradiction
        · simp only [if_neg same] at answers
          cases answers
          obtain ⟨own, here⟩ := addSizes_after added room
          simp only [listed, counted, own, here, ok_bind, reached, if_neg same]
          rfl

def header : Decoder StoredTrie := do
  let size ← Decoder.uint32 "trie size"
  let root ← Decoder.uint32 "trie root offset"
  let length ← Decoder.uint32 "trie node region length"
  let nodes ← Decoder.slice length "trie nodes"
  return { size, root, nodes }

def checkWithin (t : StoredTrie) (turns : Nat) : Option (Except (Failure FormatError) Unit) :=
  if t.size = 0 then
    some (.ok ())
  else
    match TrieNode.checkedAt t.nodes t.root with
    | .error e => some (.error e)
    | .ok root =>
      if root.count ≠ t.size then some (refuse (FormatError.corrupt (.trieCount root.count t.size)))
      else loopWithin (checkTurn t.nodes) turns [t.root]

def decodeWithin (turns : StoredTrie → Nat) (v : View) :
    Option (Except (Failure FormatError) StoredTrie × View) :=
  match header.runOn v with
  | (.error e, w) => some (.error e, w)
  | (.ok t, w) => (t.checkWithin (turns t)).map fun outcome => (outcome.map fun () => t, w)

def getWithin (t : StoredTrie) (turns rank : Nat) : Option (Except Fault Bytes) :=
  if rank < t.size then loopWithin (getTurn t.nodes) turns (t.root, rank, [])
  else some (.error (.valueOutOfRange rank t.size))

def locateWithin (t : StoredTrie) (turns : Nat) (value : Bytes) :
    Option (Except Fault (Nat × Bool)) :=
  if t.size = 0 then some (.ok (0, false))
  else loopWithin (locateTurn t.nodes) turns (t.root, value, 0)

/-- As many turns as the check of a tree can take: one for every value and every offset up to
the root, and the one that finds the stack empty. -/
def checkTurns (t : StoredTrie) : Nat := t.size * (t.root + 1) + 1

theorem checkWithin_eq (t : StoredTrie) : t.checkWithin t.checkTurns = some t.check := by
  unfold checkWithin check
  by_cases empty : t.size = 0
  · rw [if_pos empty, if_pos empty]
    rfl
  · rw [if_neg empty, if_neg empty]
    cases checked : TrieNode.checkedAt t.nodes t.root with
    | error e => rfl
    | ok root =>
      by_cases wrong : root.count ≠ t.size
      · simp only [ok_bind, if_pos wrong]
        rfl
      · have counted := countAt_of_readAt (readAt_of_checkedAt checked).1
        have enough : load t.nodes [t.root] < t.checkTurns := by
          rw [load_cons, storedCount_eq counted, Decidable.not_not.mp wrong, checkTurns]
          exact Nat.lt_succ_self _
        simp only [ok_bind, if_neg wrong]
        rw [(checkTurn_keeping t.nodes).loopWithin_eq rfl enough, List.forM_eq_forM, List.forM_cons]
        exact congrArg some (bind_pure (checkBelow t.nodes t.root))

theorem decode_eq : decode = header >>= fun t => do t.check; return t := by
  simp only [decode, header, bind_assoc, pure_bind]

theorem decodeWithin_eq (v : View) : decodeWithin checkTurns v = some (decode.runOn v) := by
  rw [decode_eq, Decoder.runOn, Meets.run_bind, decodeWithin]
  cases ran : header.runOn v with
  | mk answer w =>
    rw [Decoder.runOn] at ran
    rw [ran]
    cases answer with
    | error e => rfl
    | ok t =>
      simp only [checkWithin_eq]
      cases t.check <;> rfl

/-- The walks of a tree end at every rank and on every byte string, after no more turns than
there are offsets up to the root. -/
structure Walkable (t : StoredTrie) : Prop where
  get : ∀ rank < t.size, ∃ value,
    t.getWithin (t.root + 1) rank = some (.ok value) ∧ t.get rank = .ok value
  locate : ∀ value, ∃ place,
    t.locateWithin (t.root + 1) value = some (.ok place) ∧ t.locate value = .ok place

theorem Stands.walkable {t : StoredTrie} {values : List Bytes} (stands : t.Stands values) :
    t.Walkable where
  get rank inside := by
    have answers := stands.get_eq (stands.1.symm ▸ inside)
    refine ⟨_, ?_, answers⟩
    rw [StoredTrie.get, if_pos inside] at answers
    rw [getWithin, if_pos inside]
    exact (getTurn_keeping t.nodes).loopWithin_eq (.found answers) (Nat.lt_succ_self _)
  locate value := by
    have answers := stands.locate_eq value
    refine ⟨_, ?_, answers⟩
    unfold StoredTrie.locate at answers
    unfold locateWithin
    by_cases empty : t.size = 0
    · rw [if_pos empty] at answers ⊢
      exact congrArg some answers
    · rw [if_neg empty] at answers ⊢
      have room : 0 + values.countP (· < value) < sizeLimit := by
        rw [Nat.zero_add]
        exact lt_sizeLimit (Nat.lt_of_le_of_lt List.countP_le_length stands.length_lt)
      have start := Locating.placed answers room
      rw [Nat.zero_add] at start
      exact (locateTurn_keeping t.nodes).loopWithin_eq start (Nat.lt_succ_self _)

/-- Reading a tree ends on all bytes, with a tree or a refusal and after a bounded number of
turns of its loop; and both walks of every tree that it accepts end. -/
theorem loops_end (v : View) :
    decodeWithin checkTurns v = some (decode.runOn v) ∧
      ((∃ e w, decode.runOn v = (.error (.refused e), w)) ∨
        ∃ t w, decode.runOn v = (.ok t, w) ∧ t.Walkable) := by
  refine ⟨decodeWithin_eq v, ?_⟩
  have meets : Meets decode v (fun t _ => t.Walkable) fun _ _ => True :=
    decode_meets (fun _ _ _ stands => stands.walkable) fun _ _ => trivial
  unfold Meets at meets
  rw [Decoder.runOn]
  split at meets
  · exact Or.inr ⟨_, _, ‹_›, meets⟩
  · exact Or.inl ⟨_, _, ‹_›⟩
  · exact meets.elim

/-- A node without a value whose only edge leads back to it. -/
def ownChild : Bytes :=
  [1, 0, 0, 0] ++ [0, 0, 0, 0] ++ [10, 0, 0, 0] ++ [4, 1, 0, 0, 0, 97, 0, 0, 0, 0]

example : (decodeWithin checkTurns (View.ofBytes ownChild)).map (fun (answer, _) => answer.map size) =
    some (.error (.refused (.corrupt (.childNotBefore 0 0)))) := by
  decide +kernel

/-- The check comes to a shared leaf once for each edge, so it takes four turns here. -/
example : decodeWithin (fun _ => 3) (View.ofBytes sharedLeaf) = none ∧
    (decodeWithin (fun _ => 4) (View.ofBytes sharedLeaf)).isSome := by
  decide +kernel

end StoredTrie

end DocStore
