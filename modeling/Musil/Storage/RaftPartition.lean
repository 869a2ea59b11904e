import Musil.Raft.VecLog
import Musil.Storage.PartitionOrder

/-!
# The Raft log on disk

A Raft log that keeps each entry in a batch of its own, in a partition whose actor also truncates.
A truncation removes whole segments: what lies behind the cut in a segment that is kept stays in
its file and in its view.
-/

namespace Musil.Storage

open Bytes Proto Raft

/-- The partition, and the readings of the clock at the appends to come. -/
structure RaftPartition where
  partition : Partition
  clock : ℕ → UInt64

/-- The epoch of a batch, as an entry has it. -/
def epochOf (b : RecordBatch) : ℕ :=
  b.partitionLeaderEpoch.toUInt32.toNat

namespace RaftPartition

variable (l : RaftPartition)

def logEndOffset : ℕ :=
  l.partition.state.logEndOffset

/-! ### Reading

A read has no value when the decoding of a batch or a record panics. -/

/-- The epoch of the batch at an offset. -/
def scanEpoch (offset : ℕ) : List (Option RecordBatch) → Option (Option ℕ)
  | [] => some none
  | none :: _ => none
  | some batch :: batches =>
    if batch.baseOffset.toNat = offset then some (some (epochOf batch))
    else if offset < batch.baseOffset.toNat then some none
    else scanEpoch offset batches

def epochAt (offset : ℕ) : Option (Option ℕ) :=
  let st := l.partition.state
  match partitionPoint (fun v => v.baseOffset ≤ offset) st.segments with
  | 0 => some none
  | idx + 1 => do
    let v ← st.segments[idx]?
    match v.batchIterFrom (l.partition.disk.file v.baseOffset) offset with
    | none => some none
    | some it => scanEpoch offset it.batches

/-- All batches of the segments, one segment after the other. -/
def allBatches : List (Option RecordBatch) :=
  l.partition.state.segments.flatMap fun v =>
    (v.batchesFrom (l.partition.disk.file v.baseOffset) 0).batches

/-- The epoch before the current one, while the epochs go by. -/
def scanLastEpoch : ℕ → ℕ → List (Option RecordBatch) → Option ℕ
  | prevEpoch, _, [] => some prevEpoch
  | _, _, none :: _ => none
  | prevEpoch, currEpoch, some batch :: batches =>
    if epochOf batch ≠ currEpoch then scanLastEpoch currEpoch (epochOf batch) batches
    else scanLastEpoch prevEpoch currEpoch batches

def lastEpoch : Option ℕ :=
  if l.partition.state.segments.isEmpty then some 0 else scanLastEpoch 0 0 l.allBatches

/-- The entries of a segment in the range, and whether a batch at its end or behind was seen. -/
def collect (start stop : ℕ) : List (Option RecordBatch) → Option (List LogEntry × Bool)
  | [] => some ([], false)
  | none :: _ => none
  | some batch :: batches =>
    if stop ≤ batch.baseOffset.toNat then some ([], true)
    else if batch.baseOffset.toNat < start then collect start stop batches
    else do
      let (record, _) ← Record.decode.run batch.records
      let (entries, stopped) ← collect start stop batches
      some (⟨epochOf batch, batch.baseOffset.toNat, record.value⟩ :: entries, stopped)

def collectSegments (d : Disk) (start stop : ℕ) : List SegmentView → Option (List LogEntry)
  | [] => some []
  | v :: views =>
    match v.batchIterFrom (d.file v.baseOffset) start with
    | none => collectSegments d start stop views
    | some it => do
      let (entries, stopped) ← collect start stop it.batches
      if stopped then some entries
      else (collectSegments d start stop views).map (entries ++ ·)

def entries (start stop : ℕ) : Option (List LogEntry) :=
  let st := l.partition.state
  let startIdx := partitionPoint (fun v => v.baseOffset ≤ start) st.segments - 1
  collectSegments l.partition.disk start stop (st.segments.drop startIdx)

/-- The offset of the first batch of an epoch. -/
def scanEpochStart (epoch : ℕ) : List (Option RecordBatch) → Option (Option ℕ)
  | [] => some none
  | none :: _ => none
  | some batch :: batches =>
    if epochOf batch = epoch then some (some batch.baseOffset.toNat)
    else scanEpochStart epoch batches

def findEpochStart (epoch : ℕ) : Option ℕ :=
  if l.partition.state.segments.isEmpty then some 0
  else (scanEpochStart epoch l.allBatches).map fun o => o.getD l.logEndOffset

/-! ### Writing -/

def entryRecord (entry : LogEntry) : Record :=
  Record.new (l.clock 0) 0 [] entry.data

def entryBatch [Crc] (entry : LogEntry) : RecordBatch :=
  { RecordBatch.fromCompact (UInt64.ofNat entry.offset) 1 (l.entryRecord entry).encode with
    partitionLeaderEpoch := (UInt32.ofNat entry.epoch).toInt32 }

def append [Crc] (entry : LogEntry) : RaftPartition where
  partition := (l.partition.handle (.append (l.entryBatch entry) .none 0)).1
  clock k := l.clock (k + 1)

def truncate (offset : ℕ) : RaftPartition :=
  { l with partition := (l.partition.handle (.truncate offset 0)).1 }

end RaftPartition

/-- A node sees a log whose reads do not panic. -/
instance [Crc] : RaftLog RaftPartition where
  logEndOffset := RaftPartition.logEndOffset
  epochAt l offset := (l.epochAt offset).getD none
  lastEpoch l := l.lastEpoch.getD 0
  entries l s e := (l.entries s e).getD []
  findEpochStart l epoch := (l.findEpochStart epoch).getD 0
  append l entry := l.append entry
  truncate := RaftPartition.truncate

/-! ### Batches of one record -/

/-- The batch holds one record. -/
def OneRecord (x : Filled) : Prop :=
  ∃ r, x.recs = [r] ∧ r.Sized

/-- The entry that a batch of one record stands for. -/
def entryOf (x : Filled) : LogEntry :=
  ⟨epochOf x.batch, x.batch.baseOffset.toNat, (x.recs.head?.map (·.value)).getD []⟩

section OneRecord

variable {base start stop : ℕ} {x : Filled} {xs : List Filled} {d : Disk} {v : SegmentView}
  {vs : List SegmentView} {segs : List (List Filled)} {f : SegmentFile}

lemma OneRecord.length_eq (h : OneRecord x) : x.recs.length = 1 := by
  obtain ⟨r, hr, -⟩ := h
  rw [hr, List.length_singleton]

lemma OneRecord.decode (h : OneRecord x) :
    ∃ r, Record.decode.run x.batch.records = some (r, []) ∧
      entryOf x = ⟨epochOf x.batch, x.batch.baseOffset.toNat, r.value⟩ := by
  obtain ⟨r, hr, hsized⟩ := h
  refine ⟨r, ?_, by rw [entryOf, hr]; rfl⟩
  have hread := (Record.reads_decode hsized).run_eq
  rwa [x.carries.records_eq, hr, List.flatMap_singleton]

lemma endOffset_of_oneRecord (h : ∀ x ∈ xs, OneRecord x) : endOffset base xs = base + xs.length := by
  induction xs generalizing base with
  | nil => rfl
  | cons x xs ih =>
    rw [List.forall_mem_cons] at h
    rw [endOffset_cons, ih h.2, h.1.length_eq, List.length_cons]
    omega

/-- As many batches are skipped as there are offsets before the start. -/
lemma fromOffset_of_oneRecord (h : ∀ x ∈ xs, OneRecord x) (hc : Chained base xs)
    (hb : base ≤ start) :
    fromOffset start xs = xs.drop (start - base) ∧ Chained start (xs.drop (start - base)) := by
  induction xs generalizing base with
  | nil => exact ⟨by simp [fromOffset], by rw [List.drop_nil]; trivial⟩
  | cons x xs ih =>
    rw [List.forall_mem_cons] at h
    rcases hb.eq_or_lt with rfl | hlt
    · rw [fromOffset_of_le hc le_rfl, Nat.sub_self]
      exact ⟨rfl, hc⟩
    · have hskip : fromOffset start (x :: xs) = fromOffset start xs := by
        refine List.dropWhile_cons_of_pos ?_
        rw [decide_eq_true_eq, hc.1, h.1.length_eq]
        exact hlt
      have hrest := hc.2
      rw [h.1.length_eq] at hrest
      rw [hskip, show start - base = start - (base + 1) + 1 by omega, List.drop_succ_cons]
      exact ih h.2 hrest hlt

/-- Scanning batches from the start on collects those below the end; it stops unless all are. -/
lemma collect_map (stop : ℕ) (h : ∀ x ∈ xs, OneRecord x) (hc : Chained base xs) (hs : start ≤ base) :
    ∃ stopped, RaftPartition.collect start stop (xs.map fun x => some x.batch)
        = some ((xs.map entryOf).take (stop - base), stopped) ∧
      if stopped then stop - base ≤ xs.length else xs.length ≤ stop - base := by
  induction xs generalizing base with
  | nil => exact ⟨false, by rw [List.map_nil, List.map_nil, List.take_nil]; rfl, Nat.zero_le _⟩
  | cons x xs ih =>
    rw [List.forall_mem_cons] at h
    have hrest := hc.2
    rw [h.1.length_eq] at hrest
    obtain ⟨stopped, hcollect, hflag⟩ := ih h.2 hrest (Nat.le_succ_of_le hs)
    rw [List.map_cons, RaftPartition.collect, hc.1]
    split_ifs with hstop hbelow
    · rw [Nat.sub_eq_zero_of_le hstop]
      exact ⟨true, rfl, Nat.zero_le _⟩
    · exact absurd hbelow (Nat.not_lt.mpr hs)
    · obtain ⟨r, hdecode, hentry⟩ := h.1.decode
      rw [hc.1] at hentry
      rw [show stop - base = stop - (base + 1) + 1 by omega, List.map_cons, List.take_succ_cons,
        List.length_cons, hentry]
      refine ⟨stopped, ?_, ?_⟩
      · simp only [hdecode, hcollect, Option.bind_eq_bind, Option.bind_some]
      · split_ifs at hflag ⊢ <;> omega

/-- From segments behind the start, the entries below the end are collected; a segment behind them
without batches adds none. -/
lemma collectSegments_append {ws : List SegmentView} (hl : Laid d base vs segs)
    (h : ∀ x ∈ segs.flatten, OneRecord x) (hs : start ≤ base)
    (hw : RaftPartition.collectSegments d start stop ws = some []) :
    RaftPartition.collectSegments d start stop (vs ++ ws)
      = some ((segs.flatten.map entryOf).take (stop - base)) := by
  induction vs generalizing base segs with
  | nil =>
    cases segs with
    | nil =>
      rw [List.flatten_nil, List.map_nil, List.take_nil]
      exact hw
    | cons xs segs => exact hl.elim
  | cons v vs ih =>
    cases segs with
    | nil => exact hl.elim
    | cons xs segs =>
      obtain ⟨rfl, hholds, hrest⟩ := hl
      rw [List.flatten_cons, List.forall_mem_append] at h
      obtain ⟨it, hit, hbatches⟩ := hholds.batchIterFrom
        (show start ≤ _ from hs.trans le_endOffset)
      rw [fromOffset_of_le hholds.chained hs] at hbatches
      obtain ⟨stopped, hcollect, hflag⟩ := collect_map stop h.1 hholds.chained hs
      rw [← hbatches] at hcollect
      have hmore := ih hrest h.2 (hs.trans le_endOffset)
      rw [endOffset_of_oneRecord h.1] at hmore
      simp only [List.cons_append, RaftPartition.collectSegments, hit, hcollect, hmore,
        Option.bind_eq_bind, Option.bind_some, Option.map_some, List.flatten_cons, List.map_append,
        List.take_append, List.length_map]
      split_ifs at hflag ⊢ with hst
      · rw [Nat.sub_eq_zero_of_le hflag, List.take_zero, List.append_nil]
      · rw [Nat.sub_sub]

lemma collectSegments_of_le (stop : ℕ) (hl : Laid d base vs segs) (h : ∀ x ∈ segs.flatten, OneRecord x)
    (hs : start ≤ base) : RaftPartition.collectSegments d start stop vs
      = some ((segs.flatten.map entryOf).take (stop - base)) := by
  have hall : RaftPartition.collectSegments d start stop (vs ++ [])
      = some ((segs.flatten.map entryOf).take (stop - base)) :=
    collectSegments_append hl h hs rfl
  rwa [List.append_nil] at hall

end OneRecord

/-! ### What the reads return -/

/-- Every batch that the partition shows holds one record. -/
structure RaftPartition.Keeping (l : RaftPartition) (xs : List Filled) : Prop where
  shows : Shows l.partition.disk l.partition.state xs
  one : ∀ x ∈ xs, OneRecord x

namespace RaftPartition.Keeping

variable {l : RaftPartition} {xs : List Filled}

lemma logEndOffset_eq (h : l.Keeping xs) : l.logEndOffset = xs.length := by
  rw [RaftPartition.logEndOffset, h.shows.leo_eq, endOffset_of_oneRecord h.one, Nat.zero_add]

/-- The segment that an offset falls into, with what comes before and behind. -/
lemma locate (h : l.Keeping xs) (o : ℕ) : ∃ v post pre zs spost,
    xs = pre ++ (zs ++ spost.flatten) ∧ v.baseOffset = pre.length ∧ pre.length ≤ o ∧
      (partitionPoint (fun v => v.baseOffset ≤ o) l.partition.state.segments - 1 + 1
        = partitionPoint (fun v => v.baseOffset ≤ o) l.partition.state.segments) ∧
      l.partition.state.segments.drop
        (partitionPoint (fun v => v.baseOffset ≤ o) l.partition.state.segments - 1) = v :: post ∧
      Holds (l.partition.disk.file v.baseOffset) v zs ∧
      Laid l.partition.disk (v.baseOffset + zs.length) post spost ∧
      (post ≠ [] → o < v.baseOffset + zs.length) ∧ (∀ x ∈ zs, OneRecord x) ∧
      ∀ x ∈ spost.flatten, OneRecord x := by
  obtain ⟨segs, hlaid, hflat⟩ := h.shows.laid
  obtain ⟨pre, v, post, spre, zs, spost, hvs, rfl, hbase, hholds, hle, hrest, hpost, hpoint⟩ :=
    hlaid.locate h.shows.segments_ne (Nat.zero_le o)
  rw [List.flatten_append, List.flatten_cons] at hflat
  have hone := h.one
  rw [← hflat, List.forall_mem_append, List.forall_mem_append] at hone
  rw [endOffset_of_oneRecord hone.1, Nat.zero_add] at hbase
  rw [endOffset_of_oneRecord hone.2.1] at hrest hpost
  refine ⟨v, post, spre.flatten, zs, spost, hflat.symm, hbase, hbase ▸ hle, ?_, ?_, hholds, hrest,
    hpost, hone.2.1, hone.2.2⟩
  · rw [hpoint, Nat.add_sub_cancel]
  · rw [hpoint, Nat.add_sub_cancel, hvs, List.drop_left]

/-- The entries in a range are those of the batches at these places. -/
theorem entries_eq (h : l.Keeping xs) (start stop : ℕ) :
    l.entries start stop = some (((xs.map entryOf).take stop).drop start) := by
  obtain ⟨v, post, pre, zs, spost, rfl, hbase, hle, -, hdrop, hholds, hrest, hpost, hone, hmore⟩ :=
    h.locate start
  have hvle : v.baseOffset ≤ start := hbase ▸ hle
  have hskip : (((pre ++ (zs ++ spost.flatten)).map entryOf).take stop).drop start
      = (((zs ++ spost.flatten).map entryOf).drop (start - v.baseOffset)).take (stop - start) := by
    rw [List.drop_take, List.map_append, List.drop_append, List.drop_eq_nil_of_le (by simpa using hle),
      List.nil_append, List.length_map, hbase]
  rw [RaftPartition.entries, hdrop, hskip]
  rcases Nat.lt_or_ge (v.baseOffset + zs.length) start with hlt | hge
  · obtain rfl : post = [] := by
      by_contra hne
      exact absurd (hpost hne) (Nat.not_lt.mpr hlt.le)
    obtain rfl : spost = [] := List.eq_nil_of_length_eq_zero hrest.length_eq.symm
    have hnil : zs.drop (start - v.baseOffset) = [] := List.drop_eq_nil_of_le (by omega)
    rw [List.flatten_nil, List.append_nil, ← List.map_drop, hnil, List.map_nil, List.take_nil]
    rw [← endOffset_of_oneRecord hone] at hlt
    rcases hholds.batchIterFrom_past hlt with hnone | ⟨it, hit, hbatches⟩
    · simp only [collectSegments, hnone]
    · simp only [collectSegments, hit, hbatches, collect, Option.bind_eq_bind, Option.bind_some,
        Bool.false_eq_true, if_false, Option.map_some, List.append_nil]
  · have hk : start - v.baseOffset ≤ zs.length := by omega
    obtain ⟨it, hit, hbatches⟩ := hholds.batchIterFrom
      (show start ≤ _ by rwa [endOffset_of_oneRecord hone])
    obtain ⟨hfrom, hchained⟩ := fromOffset_of_oneRecord hone hholds.chained hvle
    obtain ⟨stopped, hcollect, hflag⟩ := collect_map stop
      (fun x hx => hone x (List.drop_subset _ _ hx)) hchained le_rfl
    rw [← hfrom, ← hbatches] at hcollect
    rw [hfrom] at hcollect
    have hsegs := collectSegments_of_le stop hrest hmore hge
    rw [List.length_drop] at hflag
    simp only [collectSegments, hit, hcollect, hsegs, Option.bind_eq_bind, Option.bind_some,
      Option.map_some, List.map_append]
    rw [List.drop_append_of_le_length (by rwa [List.length_map]), List.take_append, ← List.map_drop,
      List.length_map, List.length_drop]
    split_ifs at hflag ⊢ with hst
    · rw [Nat.sub_eq_zero_of_le hflag, List.take_zero, List.append_nil]
    · rw [show stop - (v.baseOffset + zs.length) = stop - start - (zs.length - (start - v.baseOffset))
        by omega]

/-- The epoch at an offset is that of the batch at this place. -/
theorem epochAt_eq (h : l.Keeping xs) (o : ℕ) :
    l.epochAt o = some ((xs.map entryOf)[o]?.map (·.epoch)) := by
  obtain ⟨v, post, pre, zs, spost, rfl, hbase, hle, hpoint, hdrop, hholds, hrest, hpost, hone, -⟩ :=
    h.locate o
  have hvle : v.baseOffset ≤ o := hbase ▸ hle
  have hseg : l.partition.state.segments[partitionPoint (fun v => v.baseOffset ≤ o)
      l.partition.state.segments - 1]? = some v := by
    rw [← List.head?_drop, hdrop, List.head?_cons]
  have hget : ((pre ++ (zs ++ spost.flatten)).map entryOf)[o]?
      = ((zs ++ spost.flatten)[o - v.baseOffset]?).map entryOf := by
    rw [List.getElem?_map, List.getElem?_append_right hle, hbase]
  rw [RaftPartition.epochAt, ← hpoint, hget]
  simp only [hseg, Option.bind_eq_bind, Option.bind_some]
  rcases Nat.lt_or_ge (v.baseOffset + zs.length) o with hlt | hge
  · obtain rfl : post = [] := by
      by_contra hne
      exact absurd (hpost hne) (Nat.not_lt.mpr hlt.le)
    obtain rfl : spost = [] := List.eq_nil_of_length_eq_zero hrest.length_eq.symm
    rw [List.flatten_nil, List.append_nil, List.getElem?_eq_none (by omega)]
    rw [← endOffset_of_oneRecord hone] at hlt
    rcases hholds.batchIterFrom_past hlt with hnone | ⟨it, hit, hbatches⟩
    · simp only [hnone, Option.map_none]
    · simp only [hit, hbatches, scanEpoch, Option.map_none]
  · obtain ⟨it, hit, hbatches⟩ := hholds.batchIterFrom
      (show o ≤ _ by rwa [endOffset_of_oneRecord hone])
    obtain ⟨hfrom, hchained⟩ := fromOffset_of_oneRecord hone hholds.chained hvle
    simp only [hit, hbatches, hfrom]
    rcases hge.eq_or_lt with heq | hlt
    · obtain rfl : post = [] := by
        by_contra hne
        exact absurd (hpost hne) (Nat.not_lt.mpr heq.ge)
      obtain rfl : spost = [] := List.eq_nil_of_length_eq_zero hrest.length_eq.symm
      rw [List.drop_eq_nil_of_le (by omega), List.flatten_nil, List.append_nil,
        List.getElem?_eq_none (by omega)]
      rfl
    · obtain ⟨x, rest, hx⟩ : ∃ x rest, zs.drop (o - v.baseOffset) = x :: rest := by
        refine List.exists_cons_of_ne_nil fun hnil => ?_
        rw [List.drop_eq_nil_iff] at hnil
        omega
      rw [hx] at hchained
      have hat : (zs ++ spost.flatten)[o - v.baseOffset]? = some x := by
        rw [List.getElem?_append_left (by omega), ← List.head?_drop, hx, List.head?_cons]
      rw [hat, hx, List.map_cons, scanEpoch, if_pos hchained.1]
      rfl

lemma allBatches_eq (h : l.Keeping xs) : l.allBatches = xs.map fun x => some x.batch := by
  obtain ⟨segs, hlaid, rfl⟩ := h.shows.laid
  have hbatches (base : ℕ) (vs : List SegmentView) (segs : List (List Filled))
      (hl : Laid l.partition.disk base vs segs) :
      (vs.flatMap fun v => (v.batchesFrom (l.partition.disk.file v.baseOffset) 0).batches)
        = segs.flatten.map fun x => some x.batch := by
    induction vs generalizing base segs with
    | nil =>
      cases segs with
      | nil => rfl
      | cons xs segs => exact hl.elim
    | cons v vs ih =>
      cases segs with
      | nil => exact hl.elim
      | cons xs segs =>
        obtain ⟨rfl, hholds, hrest⟩ := hl
        rw [List.flatMap_cons, hholds.batchesFrom, ih _ _ hrest, List.flatten_cons, List.map_append,
          List.map_map]
        rfl
  exact hbatches 0 _ _ hlaid

lemma scanEpochStart_map (epoch : ℕ) (xs : List Filled) :
    scanEpochStart epoch (xs.map fun x => some x.batch)
      = some (((xs.map entryOf).find? fun e => e.epoch = epoch).map (·.offset)) := by
  induction xs with
  | nil => rfl
  | cons x xs ih =>
    rw [List.map_cons, List.map_cons, scanEpochStart, ih]
    split_ifs with hepoch
    · rw [List.find?_cons_of_pos (p := fun e : LogEntry => decide (e.epoch = epoch))
        (decide_eq_true hepoch)]
      rfl
    · rw [List.find?_cons_of_neg (p := fun e : LogEntry => decide (e.epoch = epoch))
        (by rwa [decide_eq_true_eq])]

/-- The start of an epoch is the offset of its first entry, or the log end if it has none. -/
theorem findEpochStart_eq (h : l.Keeping xs) (epoch : ℕ) : l.findEpochStart epoch
    = some ((((xs.map entryOf).find? fun e => e.epoch = epoch).map (·.offset)).getD xs.length) := by
  have hne : l.partition.state.segments.isEmpty = false :=
    List.isEmpty_eq_false_iff.mpr h.shows.segments_ne
  rw [RaftPartition.findEpochStart, hne, if_neg Bool.false_ne_true, h.allBatches_eq,
    scanEpochStart_map, Option.map_some, h.logEndOffset_eq]

end RaftPartition.Keeping

/-! ### What the writes do -/

/-- The actor runs behind the log, and no segment was begun twice. -/
structure RaftPartition.Sound (l : RaftPartition) (xs : List Filled) : Prop where
  running : ∃ a, Running l.partition a xs ∧ AtEnd l.partition.disk a.active ∧ Lined l.partition a
  one : ∀ x ∈ xs, OneRecord x
  contiguous : Contiguous (xs.map entryOf)

namespace RaftPartition

/-- The batch of an entry has a length of 32 bits and fits on the disk. -/
def Fits (l : RaftPartition) (data : List UInt8) : Prop :=
  batchPayloadHeader + (33 + data.length) < 2 ^ 32 ∧
    headerSize + (33 + data.length) ≤ l.partition.disk.free

/-- Nothing is cut off, or the cut is where a segment begins. -/
def CutsAtBase (l : RaftPartition) (offset : ℕ) : Prop :=
  l.logEndOffset ≤ offset ∨ ∃ v ∈ l.partition.state.segments, v.baseOffset = offset

instance (l : RaftPartition) (data : List UInt8) : Decidable (l.Fits data) :=
  inferInstanceAs (Decidable (_ ∧ _))

instance (l : RaftPartition) (offset : ℕ) : Decidable (l.CutsAtBase offset) :=
  inferInstanceAs (Decidable (_ ∨ _))

variable {l : RaftPartition} {xs : List Filled} {entry : LogEntry} {o : ℕ}

lemma Sound.keeping (h : l.Sound xs) : l.Keeping xs := by
  obtain ⟨a, hrunning, -⟩ := h.running
  exact ⟨hrunning.shows, h.one⟩

lemma length_entryRecord (l : RaftPartition) (entry : LogEntry) :
    (l.entryRecord entry).encode.length = 33 + entry.data.length := by
  rw [Record.length_encode]
  simp [entryRecord, Record.new]

lemma epochOf_entryBatch [Crc] (l : RaftPartition) (hepoch : entry.epoch < 2 ^ 32) :
    epochOf (l.entryBatch entry) = entry.epoch := by
  rw [epochOf, entryBatch, UInt32.toUInt32_toInt32]
  exact UInt32.toNat_ofNat_of_lt' hepoch

lemma exists_entryBatch [Crc] (l : RaftPartition) (entry : LogEntry) (hlen :
    batchPayloadHeader + (33 + entry.data.length) < 2 ^ 32) :
    ∃ x : Filled, x.batch = l.entryBatch entry ∧ x.recs = [l.entryRecord entry] ∧ OneRecord x := by
  have hcarries := RecordBatch.carries_fromCompact (UInt64.ofNat entry.offset)
    [l.entryRecord entry] (by rwa [List.flatMap_singleton, length_entryRecord])
  rw [List.flatMap_singleton] at hcarries
  have hsized : (l.entryRecord entry).Sized := by
    refine Record.new_sized _ _ ?_
    rw [batchPayloadHeader] at hlen
    rw [List.length_nil]
    omega
  exact ⟨⟨l.entryBatch entry, [l.entryRecord entry],
    ⟨hcarries.sized, by rw [List.flatMap_singleton]; rfl, hcarries.count_eq⟩, List.cons_ne_nil _ _⟩,
    rfl, rfl, _, rfl, hsized⟩

/-- The batch of an entry is stored with the offset of the log end, whatever the entry's was. -/
lemma exists_append [Crc] {a : PartitionActor} (h : Running l.partition a xs) (entry : LogEntry)
    (hlen : batchPayloadHeader + (33 + entry.data.length) < 2 ^ 32)
    (hepoch : entry.epoch < 2 ^ 32) : ∃ x : Filled,
      (l.append entry).partition
        = (a.handleAppend l.partition.disk l.partition.state x.batch .none 0).1 ∧
      x.batch.records.length = 33 + entry.data.length ∧ OneRecord (stored l.partition.state x) ∧
      entryOf (stored l.partition.state x) = { entry with offset := l.logEndOffset } := by
  obtain ⟨x, hx, hrecs, hone⟩ := l.exists_entryBatch entry hlen
  refine ⟨x, ?_, ?_, hone, ?_⟩
  · rw [RaftPartition.append, Partition.handle_append h.actor]
    simp only [← hx]
  · rw [x.carries.records_eq, hrecs, List.flatMap_singleton, length_entryRecord]
  · have hoffset : (stored l.partition.state x).batch.baseOffset.toNat = l.logEndOffset :=
      UInt64.toNat_ofNat_of_lt' (h.leo_lt.trans (by decide))
    have hvalue : (((stored l.partition.state x).recs.head?.map (·.value)).getD []) = entry.data := by
      rw [show (stored l.partition.state x).recs = x.recs from rfl, hrecs]
      rfl
    have hep : epochOf (stored l.partition.state x).batch = entry.epoch := by
      rw [show epochOf (stored l.partition.state x).batch = epochOf x.batch from rfl, hx]
      exact epochOf_entryBatch l hepoch
    rw [entryOf, hvalue, hep, hoffset]

/-- An append that fits adds its entry behind the others. -/
theorem Sound.append [Crc] (h : l.Sound xs) (entry : LogEntry) (hfits : l.Fits entry.data)
    (hepoch : entry.epoch < 2 ^ 32) (ho : entry.offset = l.logEndOffset) :
    ∃ x, (l.append entry).Sound (xs ++ [x]) ∧ entryOf x = entry := by
  obtain ⟨a, hrunning, hend, hlined⟩ := h.running
  obtain ⟨x, hpartition, hrecords, hone, hentry⟩ := exists_append hrunning entry hfits.1 hepoch
  rw [← ho] at hentry
  rcases hp : a.handleAppend l.partition.disk l.partition.state x.batch .none 0 with ⟨p', out⟩
  rw [hp] at hpartition
  have hlen : (PartitionActor.rebased l.partition.state x.batch).encode.length
      ≤ l.partition.disk.free := by
    rw [RecordBatch.length_encode]
    exact hrecords ▸ hfits.2
  rcases hrunning.append hend hp with ⟨hnone, -⟩ | ⟨a', hrunning', -, hend', -, -⟩
  · obtain ⟨seg', d', happend⟩ := hend.exists_appendBatch hlen
    rw [PartitionActor.handleAppend_of_some _ _ happend] at hp
    cases hp
    cases hnone
  · refine ⟨stored l.partition.state x, ⟨⟨a', ?_, ?_, ?_⟩, ?_, ?_⟩, hentry⟩
    · exact hpartition ▸ hrunning'
    · exact hpartition ▸ hend'
    · exact hpartition ▸ hlined.append hrunning hp hrunning'.actor
    · intro y hy
      rcases List.mem_append.mp hy with hold | hnew
      · exact h.one y hold
      · rw [List.mem_singleton.mp hnew]
        exact hone
    · rw [List.map_append, List.map_singleton, hentry]
      refine h.contiguous.concat ?_
      rw [ho, h.keeping.logEndOffset_eq, List.length_map]

lemma partition_truncate (l : RaftPartition) {a : PartitionActor} (ha : l.partition.actor = some a)
    (o : ℕ) : (l.truncate o).partition = a.handleTruncate l.partition.disk l.partition.state o := by
  rw [RaftPartition.truncate, Partition.handle_truncate ha]

/-- A truncation behind the end or where a segment begins keeps the entries before it. -/
theorem Sound.truncate (h : l.Sound xs) (hcut : l.CutsAtBase o) :
    (l.truncate o).Sound (xs.take o) := by
  obtain ⟨a, hrunning, hend, hlined⟩ := h.running
  have hpartition := l.partition_truncate hrunning.actor o
  have hcontiguous : Contiguous ((xs.take o).map entryOf) := by
    rw [List.map_take]
    exact h.contiguous.take o
  rcases Nat.lt_or_ge o l.logEndOffset with hlt | hge
  · obtain ⟨v, hv, hbase⟩ := hcut.resolve_left (Nat.not_le.mpr hlt)
    obtain ⟨ys, a', hys, hlen, hrunning', hlined', -, hend'⟩ :=
      hrunning.truncate hlined hlt (List.mem_map.mpr ⟨v, hv, hbase⟩)
    have hone : ∀ y ∈ ys, OneRecord y := fun y hy => h.one y (hys.subset hy)
    rw [endOffset_of_oneRecord hone, Nat.zero_add] at hlen
    have htake : ys = xs.take o := by
      rw [← hlen]
      exact List.prefix_iff_eq_take.mp hys
    subst htake
    exact ⟨⟨a', hpartition ▸ hrunning', hpartition ▸ hend', hpartition ▸ hlined'⟩, hone,
      hcontiguous⟩
  · have hbehind : l.partition.state.logEndOffset ≤ o := hge
    have hsame : (l.truncate o).partition = l.partition := by
      rw [hpartition, PartitionActor.handleTruncate, if_pos hbehind, ← hrunning.actor]
    rw [h.keeping.logEndOffset_eq] at hge
    rw [List.take_of_length_le hge]
    exact ⟨⟨a, hsame ▸ hrunning, hsame ▸ hend, hsame ▸ hlined⟩, h.one, h.contiguous⟩

/-- Only the first view can begin at offset zero. -/
lemma partitionPoint_zero_le {vs : List SegmentView}
    (h : (vs.map SegmentView.baseOffset).Pairwise (· < ·)) :
    partitionPoint (fun v => v.baseOffset ≤ 0) vs ≤ 1 := by
  cases vs with
  | nil => exact Nat.zero_le _
  | cons v vs =>
    rw [List.map_cons, List.pairwise_cons] at h
    have hrest : vs.takeWhile (fun v => decide (v.baseOffset ≤ 0)) = [] := by
      cases vs with
      | nil => rfl
      | cons w vs =>
        have hlt := h.1 w.baseOffset List.mem_cons_self
        exact List.takeWhile_cons_of_neg (by simpa using (Nat.zero_lt_of_lt hlt).ne')
    rw [partitionPoint, List.takeWhile_cons, hrest]
    split_ifs <;> simp

/-- The first segments of the log hold the batches `xs`, which reach the log end or beyond; those
behind begin at the log end and hold none. -/
structure Overhangs (l : RaftPartition) (xs : List Filled) : Prop where
  lined : ∃ a, l.partition.actor = some a ∧ Lined l.partition a
  laid : ∃ vs post segs, l.partition.state.segments = vs ++ post ∧
    Laid l.partition.disk 0 vs segs ∧ segs.flatten = xs ∧
    (∀ v ∈ post, l.logEndOffset ≤ v.baseOffset) ∧
    collectSegments l.partition.disk 0 l.logEndOffset post = some []
  one : ∀ x ∈ xs, OneRecord x
  leo_le : l.logEndOffset ≤ xs.length

lemma Sound.overhangs (h : l.Sound xs) : l.Overhangs xs := by
  obtain ⟨a, hrunning, -, hlined⟩ := h.running
  obtain ⟨segs, hlaid, hflat⟩ := hrunning.shows.laid
  refine ⟨⟨a, hrunning.actor, hlined⟩, ⟨_, [], segs, (List.append_nil _).symm, hlaid, hflat, ?_,
    rfl⟩, h.one, h.keeping.logEndOffset_eq.le⟩
  exact fun v hv => absurd hv List.not_mem_nil

/-- The entries of such a log are those of the batches below the log end. -/
lemma Overhangs.entries_eq (h : l.Overhangs xs) :
    l.entries 0 l.logEndOffset = some ((xs.map entryOf).take l.logEndOffset) := by
  obtain ⟨a, -, hlined⟩ := h.lined
  obtain ⟨vs, post, segs, hviews, hlaid, rfl, -, hempty⟩ := h.laid
  simp only [RaftPartition.entries, Nat.sub_eq_zero_of_le (partitionPoint_zero_le hlined.sorted),
    List.drop_zero]
  rw [hviews, collectSegments_append hlaid h.one le_rfl hempty, Nat.sub_zero]

lemma Overhangs.truncate_behind (h : l.Overhangs xs) (ho : l.logEndOffset ≤ o) :
    l.truncate o = l := by
  obtain ⟨a, hactor, -⟩ := h.lined
  have hbehind : l.partition.state.logEndOffset ≤ o := ho
  have hsame : (l.truncate o).partition = l.partition := by
    rw [l.partition_truncate hactor, PartitionActor.handleTruncate, if_pos hbehind, ← hactor]
  exact congrArg (fun p => ({ l with partition := p } : RaftPartition)) hsame

/-- A segment that is begun at the cut holds nothing. -/
lemma collectSegments_fresh {config : PartitionActorConfig} {d : Disk} (hfresh : o ∉ d.files) :
    collectSegments (LogSegment.openSegment (config.segmentConfig o) d).2 0 o
      [(LogSegment.openSegment (config.segmentConfig o) d).1.publish.1] = some [] := by
  have hlog : (d.file (config.segmentConfig o).baseOffset).log = [] :=
    congrArg SegmentFile.log (Disk.file_of_notMem hfresh)
  obtain ⟨hwrites, -⟩ := openSegment_fresh (config.segmentConfig o) d hlog
  have hlast : Laid (LogSegment.openSegment (config.segmentConfig o) d).2 o
      [(LogSegment.openSegment (config.segmentConfig o) d).1.publish.1] [[]] :=
    ⟨rfl, hwrites.holds, trivial⟩
  have hcollect := collectSegments_of_le o hlast (by simp) (Nat.zero_le o)
  rwa [List.flatten_singleton, List.map_nil, List.take_nil] at hcollect

/-- After any truncation that cuts, the log ends there, and the batches before are still there. -/
theorem Overhangs.truncate (h : l.Overhangs xs) (ho : o < l.logEndOffset) :
    (l.truncate o).logEndOffset = o ∧ ∃ ys, ys <+: xs ∧ (l.truncate o).Overhangs ys := by
  obtain ⟨a, hactor, hlined⟩ := h.lined
  obtain ⟨vs, post, segs, hviews, hlaid, rfl, hpost, -⟩ := h.laid
  -- the views that are kept come before those that are removed
  obtain ⟨f₁, f₂, hsplit, h₁, h₂⟩ := exists_split_of_sorted SegmentView.baseOffset o hlined.sorted
  obtain ⟨s₁, hkept, hpre, hreach⟩ :=
    hlaid.exists_kept (hviews.symm.trans hsplit) h₁ h₂ (fun v hv => ho.trans_le (hpost v hv))
      (by simpa [endOffset_of_oneRecord h.one] using ho.le.trans h.leo_le)
  have hone : ∀ x ∈ s₁.flatten, OneRecord x := fun x hx => h.one x (hpre.subset hx)
  rw [endOffset_of_oneRecord hone, Nat.zero_add] at hreach
  have hcut := handleTruncate_of_lt (a := a) (d := l.partition.disk) ho hsplit h₁ h₂
  have hpartition := (l.partition_truncate hactor o).trans hcut
  have hleo : (l.truncate o).logEndOffset = o := by rw [RaftPartition.logEndOffset, hpartition]
  have hfresh := hlined.notMem_removeAll hsplit h₁
  refine ⟨hleo, s₁.flatten, hpre, ⟨_, by rw [hpartition], ?_⟩, ⟨f₁, _, s₁, by rw [hpartition], ?_,
    rfl, ?_, ?_⟩, hone, hleo.trans_le hreach⟩
  · rw [hpartition, ← hcut]
    exact hlined.cut hsplit h₁ h₂ ho (congrArg Partition.actor hcut)
  · rw [hpartition]
    refine hkept.frame fun v hv xs hholds => ?_
    refine (Disk.file_put_ne _ _ _ (h₁ v hv).ne).symm ▸ ?_
    rwa [file_removeAll]
    intro hmem
    obtain ⟨w, hw, heq⟩ := List.mem_map.mp hmem
    exact absurd (heq ▸ h₂ w hw) (Nat.not_le.mpr (h₁ v hv))
  · intro v hv
    rw [List.mem_singleton.mp hv, hleo]
    exact le_rfl
  · rw [hleo, hpartition]
    exact collectSegments_fresh hfresh

end RaftPartition

end Musil.Storage
