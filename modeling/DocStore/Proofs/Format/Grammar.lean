import DocStore.Proofs.Delimiting
import DocStore.Proofs.Format.File
import DocStore.Proofs.Format.Regions

/-! The grammar of a file: a header, segments without gaps, and a digest. Opening and splitting
accept just what was framed, and what they accept is framed to the same bytes again. -/
namespace DocStore

theorem View.rewound_eq {v w : View} (moved : v.setPosition 0 = .ok w) :
    w.position = 0 ∧ w.bytes = v.bytes := by
  obtain ⟨_, _, same⟩ := bind_eq_ok.mp moved
  cases same
  exact ⟨Nat.zero_min _, rfl⟩

namespace RawSegment

variable {raw : RawSegment} {raws : List RawSegment} {v w region : View}

def frame (raw : RawSegment) : Bytes := Segment.form raw.kind raw.body.rest

theorem length_frame (raw : RawSegment) : raw.frame.length = raw.body.rest.length + 8 := by
  simp only [frame, Segment.form, List.length_append, Bytes.length_ofUInt32]
  omega

theorem formOf_written (raws : List RawSegment) : formOf (raws.map written) = raws.flatMap frame :=
  List.flatMap_map ..

theorem code_of_ofCode? {code : Nat} {kind : SegmentKind}
    (known : SegmentKind.ofCode? code = some kind) : kind.code = code := by
  simpa using List.find?_some known

/-- What was split off is the frame at the cursor, and no longer than its length can tell. -/
theorem decodeNext_eq_ok (ran : decodeNext.runOn v = (.ok raw, w)) :
    raw.offset = v.position ∧ raw.body.rest.length + 4 < 2 ^ 32 ∧ v.Passes w raw.frame := by
  obtain ⟨offset, _, asked, ran⟩ := Decoder.bind_eq_ok.mp ran
  cases asked
  obtain ⟨length, v₁, told, ran⟩ := Decoder.bind_eq_ok.mp ran
  obtain ⟨first, width, rfl, passed⟩ := Decoder.uint32_eq_ok told
  obtain ⟨least, ran⟩ := Decoder.passed_of_ok ran
  obtain ⟨code, v₂, named, ran⟩ := Decoder.bind_eq_ok.mp ran
  obtain ⟨second, width', rfl, passed'⟩ := Decoder.uint32_eq_ok named
  split at ran
  · cases ran
  · rename_i kind known
    rw [subSizes_of_le (Nat.not_lt.mp least)] at ran
    obtain ⟨_, _, left, ran⟩ := Decoder.bind_eq_ok.mp ran
    cases left
    obtain ⟨body, v₃, taken, ran⟩ := Decoder.bind_eq_ok.mp ran
    obtain ⟨size, start, passed''⟩ := Decoder.slice_eq_ok taken
    cases ran
    have bound := Bytes.value_lt first
    rw [width] at bound
    have rest : body.rest = body.bytes := View.rest_eq_bytes start
    have total : body.rest.length + 4 = Bytes.value first := by
      rw [rest, size]
      omega
    refine ⟨rfl, by rw [total]; exact bound, ?_⟩
    have whole : frame ⟨kind, v.position, body⟩ = first ++ second ++ body.bytes := by
      rw [frame, Segment.form, total, Bytes.ofUInt32_value width, code_of_ofCode? known,
        Bytes.ofUInt32_value width', rest]
    rw [whole]
    exact (passed.trans passed').trans passed''

/-- Segments that lie one after the other, with nothing before, between or behind them. -/
structure Tile (raws : List RawSegment) (start : Nat) (bytes : Bytes) : Prop where
  whole : bytes = raws.flatMap frame
  starts : ∀ k raw, raws[k]? = some raw → raw.offset = start + ((raws.take k).flatMap frame).length
  short : ∀ raw ∈ raws, raw.body.rest.length + 4 < 2 ^ 32

theorem tile_nil (start : Nat) : Tile [] start [] where
  whole := rfl
  starts _ _ listed := nomatch listed
  short _ listed := absurd listed List.not_mem_nil

theorem Tile.cons {start : Nat} {bytes : Bytes} (offset : raw.offset = start)
    (short : raw.body.rest.length + 4 < 2 ^ 32)
    (rest : Tile raws (start + raw.frame.length) bytes) :
    Tile (raw :: raws) start (raw.frame ++ bytes) where
  whole := by rw [List.flatMap_cons, ← rest.whole]
  starts k other listed := by
    cases k with
    | zero =>
      cases listed
      exact offset
    | succ k =>
      rw [rest.starts k other listed, List.take_succ_cons, List.flatMap_cons, List.length_append,
        Nat.add_assoc]
  short := List.forall_mem_cons.mpr ⟨short, rest.short⟩

theorem splitFrom_eq_ok {fuel : Nat} (enough : region.remaining ≤ fuel)
    (ran : splitFrom fuel region = .ok raws) : Tile raws region.position region.rest := by
  induction fuel generalizing region raws with
  | zero =>
    have done : region.remaining = 0 := Nat.le_zero.mp enough
    have empty : region.rest = [] := List.eq_nil_of_length_eq_zero (region.length_rest.trans done)
    rw [splitFrom, if_pos done] at ran
    cases ran
    exact empty ▸ tile_nil _
  | succ fuel ih =>
    by_cases done : region.remaining = 0
    · have empty : region.rest = [] :=
        List.eq_nil_of_length_eq_zero (region.length_rest.trans done)
      rw [splitFrom, if_pos done] at ran
      cases ran
      exact empty ▸ tile_nil _
    · rw [splitFrom, if_neg done] at ran
      split at ran
      · rename_i raw after next
        obtain ⟨others, later, same⟩ := bind_eq_ok.mp ran
        cases same
        obtain ⟨offset, short, passes⟩ := decodeNext_eq_ok next
        have less : after.remaining ≤ fuel := by
          have total := congrArg List.length passes.rest
          rw [List.length_append, length_frame, region.length_rest, after.length_rest] at total
          omega
        have rest := ih less later
        rw [passes.position] at rest
        exact passes.rest ▸ Tile.cons offset short rest
      · cases ran

/-- What a region is split into are frames one after the other that make up all of it. -/
theorem split_eq_ok (ran : split region = .ok raws) : Tile raws 0 region.bytes := by
  obtain ⟨rewound, set, ran⟩ := bind_eq_ok.mp ran
  cases known : region.setPosition 0 with
  | error cause =>
    rw [known] at set
    cases set
  | ok cursor =>
    rw [known] at set
    cases set
    obtain ⟨start, bytes⟩ := View.rewound_eq known
    have tiles := splitFrom_eq_ok (Nat.le_refl _) ran
    rw [View.rest_eq_bytes start, start, bytes] at tiles
    exact tiles

/-- Segment `k` has the byte at a place of the region. -/
def Covers (raws : List RawSegment) (k place : Nat) : Prop :=
  ∃ raw : RawSegment, raws[k]? = some raw ∧ raw.offset ≤ place ∧
    place < raw.offset + raw.frame.length

theorem exists_piece {place : Nat} (inside : place < (raws.flatMap frame).length) :
    ∃ k raw, raws[k]? = some raw ∧ ((raws.take k).flatMap frame).length ≤ place ∧
      place < ((raws.take k).flatMap frame).length + raw.frame.length := by
  induction raws generalizing place with
  | nil => exact absurd inside (Nat.not_lt_zero _)
  | cons first rest ih =>
    rw [List.flatMap_cons, List.length_append] at inside
    by_cases here : place < first.frame.length
    · exact ⟨0, first, rfl, Nat.zero_le _, by simpa using here⟩
    · obtain ⟨k, raw, listed, low, high⟩ := @ih (place - first.frame.length) (by omega)
      refine ⟨k + 1, raw, listed, ?_, ?_⟩
      · rw [List.take_succ_cons, List.flatMap_cons, List.length_append]
        omega
      · rw [List.take_succ_cons, List.flatMap_cons, List.length_append]
        omega

theorem Tile.exists_covers {start place : Nat} {bytes : Bytes} (tiles : Tile raws start bytes)
    (inside : place < bytes.length) : ∃ k, Covers raws k (start + place) := by
  rw [tiles.whole] at inside
  obtain ⟨k, raw, listed, low, high⟩ := exists_piece inside
  refine ⟨k, raw, listed, ?_, ?_⟩
  · rw [tiles.starts k raw listed]
    omega
  · rw [tiles.starts k raw listed]
    omega

theorem length_take_flatMap_le {k l : Nat} (order : k ≤ l) :
    ((raws.take k).flatMap frame).length ≤ ((raws.take l).flatMap frame).length := by
  obtain ⟨more, rfl⟩ := Nat.exists_eq_add_of_le order
  rw [List.take_add, List.flatMap_append, List.length_append]
  exact Nat.le_add_right _ _

/-- What comes after a segment starts behind its frame. -/
theorem Tile.not_covers {start k l place : Nat} {bytes : Bytes} (tiles : Tile raws start bytes)
    (before : k < l) (covers : Covers raws k place) : ¬ Covers raws l place := by
  rintro ⟨later, listed', begins, _⟩
  obtain ⟨raw, listed, _, ends⟩ := covers
  have order := @length_take_flatMap_le raws _ _ before
  rw [List.take_add_one, listed, Option.toList_some, List.flatMap_append, List.length_append,
    List.flatMap_singleton] at order
  rw [tiles.starts l later listed'] at begins
  rw [tiles.starts k raw listed] at ends
  omega

def report (raw : RawSegment) : Nat × Written := (raw.offset, raw.written)

theorem map_written_of_report {given : List RawSegment}
    (same : raws.map report = given.map report) : raws.map written = given.map written := by
  have projected := congrArg (List.map Prod.snd) same
  rwa [List.map_map, List.map_map] at projected

theorem flatMap_frame_of_written {given : List RawSegment}
    (same : raws.map written = given.map written) : raws.flatMap frame = given.flatMap frame := by
  rw [← formOf_written, ← formOf_written, same]

theorem Tile.congr {given : List RawSegment} {start : Nat} {bytes : Bytes}
    (tiles : Tile raws start bytes) (same : raws.map report = given.map report) :
    Tile given start bytes where
  whole := tiles.whole.trans (flatMap_frame_of_written (map_written_of_report same))
  starts k other listed := by
    have here := congrArg (·[k]?) same
    simp only [List.getElem?_map, listed, Option.map_some, Option.map_eq_some_iff] at here
    obtain ⟨raw, listed', reported⟩ := here
    have front : (raws.take k).map report = (given.take k).map report := by
      rw [List.map_take, List.map_take, same]
    rw [← flatMap_frame_of_written (map_written_of_report front), ← tiles.starts k raw listed']
    exact (congrArg Prod.fst reported).symm
  short other listed := by
    have reported : report other ∈ raws.map report := same ▸ List.mem_map_of_mem listed
    obtain ⟨raw, listed', reported⟩ := List.mem_map.mp reported
    have body : raw.body.rest = other.body.rest := congrArg (·.2.2) reported
    exact body ▸ tiles.short raw listed'

/-- Frames without gaps start where they have to. -/
theorem Tile.report_eq {given : List RawSegment} {start : Nat} {bytes bytes' : Bytes}
    (tiles : Tile raws start bytes) (tiles' : Tile given start bytes')
    (same : raws.map written = given.map written) : raws.map report = given.map report := by
  have count : raws.length = given.length := by simpa using congrArg List.length same
  apply List.ext_getElem (by simpa using count)
  intro k inside inside'
  have here := List.getElem_of_eq same (show k < (raws.map written).length by simpa using inside)
  rw [List.getElem_map, List.getElem_map] at here
  rw [List.length_map] at inside inside'
  have front : (raws.take k).map written = (given.take k).map written := by
    rw [List.map_take, List.map_take, same]
  have offset : raws[k].offset = given[k].offset := by
    rw [tiles.starts k _ (List.getElem?_eq_getElem inside),
      tiles'.starts k _ (List.getElem?_eq_getElem inside'), flatMap_frame_of_written front]
  rw [List.getElem_map, List.getElem_map]
  exact Prod.ext offset here

/-- A region is split into segments just if they are its frames, one after the other. -/
theorem split_iff (start : region.start < sizeLimit) (given : List RawSegment) :
    (∃ raws, split region = .ok raws ∧ raws.map report = given.map report) ↔
      Tile given 0 region.bytes := by
  constructor
  · rintro ⟨raws, ran, same⟩
    exact (split_eq_ok ran).congr same
  · intro tiles
    have short : ∀ s ∈ given.map written, s.2.length + 4 < 2 ^ 32 := by
      intro s listed
      obtain ⟨raw, known, rfl⟩ := List.mem_map.mp listed
      exact tiles.short raw known
    have whole := tiles.whole.trans (formOf_written given).symm
    obtain ⟨raws, ran, same⟩ := split_form short whole start
    exact ⟨raws, ran, (split_eq_ok ran).report_eq tiles same⟩

/-- The grammar of a file: what is opened and what it is split into are just what was framed. A
body whose length and four do not fit 32 bits has no frame. -/
theorem accepts_just_frames (file : View) (start : region.start < sizeLimit) :
    (∀ body, (∃ opened, File.openRegion file true = .ok opened ∧ opened.bytes = body) ↔
      file.bytes = File.header ++ body ++ Sha256.digest body) ∧
    (∀ body, (∃ opened, File.openRegion file false = .ok opened ∧ opened.bytes = body) ↔
      ∃ tail, tail.length = 32 ∧ file.bytes = File.header ++ body ++ tail) ∧
    (∀ given, (∃ raws, split region = .ok raws ∧ raws.map report = given.map report) ↔
      Tile given 0 region.bytes) ∧
    (∀ raws, split region = .ok raws → raws.flatMap frame = region.bytes ∧
      ∀ place < region.size, ∃! k, Covers raws k place) ∧
    ∀ segments : List Written, (∀ s ∈ segments, s.2.length + 4 < 2 ^ 32) →
      region.bytes = formOf segments →
        ∃ raws, split region = .ok raws ∧ raws.map written = segments := by
  refine ⟨?_, ?_, split_iff start, ?_, fun segments short whole => split_form short whole start⟩
  · intro body
    constructor
    · rintro ⟨opened, accepted, rfl⟩
      obtain ⟨stored, _, framed, sealed⟩ := File.openRegion_eq_ok accepted
      exact sealed rfl ▸ framed
    · intro framed
      obtain ⟨opened, accepted, same, _⟩ :=
        File.openRegion_framed framed (Sha256.length_digest body) fun _ => rfl
      exact ⟨opened, accepted, same⟩
  · intro body
    constructor
    · rintro ⟨opened, accepted, rfl⟩
      obtain ⟨stored, width, framed, _⟩ := File.openRegion_eq_ok accepted
      exact ⟨stored, width, framed⟩
    · rintro ⟨tail, width, framed⟩
      obtain ⟨opened, accepted, same, _⟩ :=
        @File.openRegion_framed file false _ _ framed width fun checked => nomatch checked
      exact ⟨opened, accepted, same⟩
  · intro raws ran
    have tiles := split_eq_ok ran
    refine ⟨tiles.whole.symm, ?_⟩
    intro place inside
    obtain ⟨k, covers⟩ := tiles.exists_covers (region.length_bytes.symm ▸ inside)
    rw [Nat.zero_add] at covers
    refine ⟨k, covers, ?_⟩
    intro l covers'
    rcases Nat.lt_trichotomy k l with before | same | behind
    · exact absurd covers' (tiles.not_covers before covers)
    · exact same.symm
    · exact absurd covers (tiles.not_covers behind covers')

def twoWritten : List Written := [(.payload, [7]), (.trieFilter, [])]

theorem accepts_just_frames_two :
    (View.ofBytes (formOf twoWritten)).start < sizeLimit ∧
    (∃ opened, File.openRegion (.ofBytes (File.form (formOf twoWritten))) true = .ok opened ∧
      opened.bytes = formOf twoWritten) ∧
    ∃ raws, split (.ofBytes (formOf twoWritten)) = .ok raws ∧ raws.map written = twoWritten := by
  have start : (View.ofBytes (formOf twoWritten)).start < sizeLimit := by decide
  obtain ⟨opens, _, _, _, splits⟩ :=
    accepts_just_frames (.ofBytes (File.form (formOf twoWritten))) start
  exact ⟨start, (opens _).mpr (View.bytes_ofBytes _),
    splits twoWritten (by decide) (View.bytes_ofBytes _)⟩

end RawSegment

end DocStore
