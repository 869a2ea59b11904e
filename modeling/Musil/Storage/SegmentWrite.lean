import Musil.Storage.SegmentRead

/-!
# Writing a segment

`Stored` says that the files of a segment hold certain batches and nothing else, `Writes` that a
writer agrees with its files. Opening a segment recovers a writer from the files; an append at the
end of the file keeps them in step. What it does at any other place is not said here: a writer
stands at the start of the file when it is opened.
-/

namespace Musil.Storage

open Bytes Proto BatchIter

/-! ### Files -/

namespace Disk

variable (d : Disk) (base : ℕ) (f : SegmentFile)

@[simp] lemma file_put : (d.put base f).file base = f := by
  simp [file, put]

lemma file_put_ne {k : ℕ} (h : k ≠ base) : (d.put base f).file k = d.file k := by
  simp [file, put, AList.lookup_insert_ne h]

@[simp] lemma free_put : (d.put base f).free = d.free := rfl

lemma mem_put {k : ℕ} : k ∈ (d.put base f).files ↔ k = base ∨ k ∈ d.files :=
  AList.mem_insert _

lemma put_file : (d.put base (d.file base)).file = d.file := by
  funext k
  by_cases hk : k = base
  · rw [hk, file_put]
  · rw [file_put_ne _ _ _ hk]

/-- A file that is not there is empty. -/
lemma file_of_notMem {d : Disk} {base : ℕ} (h : base ∉ d.files) : d.file base = ⟨[], []⟩ := by
  rw [file, AList.lookup_eq_none.mpr h]
  rfl

/-- The two disks hold the same files. -/
structure Agrees (d d' : Disk) : Prop where
  file : d'.file = d.file
  free : d'.free = d.free
  mem : ∀ k, k ∈ d'.files ↔ k ∈ d.files

lemma Agrees.refl (d : Disk) : d.Agrees d := ⟨rfl, rfl, fun _ => Iff.rfl⟩

lemma Agrees.trans {d d' d'' : Disk} (h : d.Agrees d') (h' : d'.Agrees d'') : d.Agrees d'' where
  file := h'.file.trans h.file
  free := h'.free.trans h.free
  mem k := (h'.mem k).trans (h.mem k)

lemma agrees_put {d : Disk} {base : ℕ} (h : base ∈ d.files) :
    d.Agrees (d.put base (d.file base)) where
  file := d.put_file base
  free := rfl
  mem k := by
    rw [mem_put]
    exact ⟨fun hk => hk.elim (fun hk => hk ▸ h) id, .inr⟩

/-- The disk with more bytes behind the log of a segment. -/
def extend (data : List UInt8) : Disk where
  free := d.free - data.length
  files := (d.put base ⟨(d.file base).log ++ data, (d.file base).index⟩).files

@[simp] lemma file_extend (data : List UInt8) : (d.extend base data).file base
    = ⟨(d.file base).log ++ data, (d.file base).index⟩ :=
  file_put d base _

lemma file_extend_ne (data : List UInt8) {k : ℕ} (h : k ≠ base) :
    (d.extend base data).file k = d.file k :=
  file_put_ne d base _ h

lemma mem_extend (data : List UInt8) {k : ℕ} :
    k ∈ (d.extend base data).files ↔ k = base ∨ k ∈ d.files :=
  mem_put d base _

/-- A write at the end of a log file extends it, as far as there is room. -/
lemma write_end (data : List UInt8) : d.write base (d.file base).log.length data
    = (decide (data.length ≤ d.free), d.extend base (data.take d.free)) := by
  simp only [write, Nat.sub_self, Nat.zero_add, writeAt_length, List.length_append,
    Nat.add_sub_cancel_left]
  rfl

end Disk

/-! ### The index -/

/-- The first `n` slots are in use and name places of the batches, the others are empty. -/
structure Indexed (base : ℕ) (index : List IndexEntry) (n : ℕ) (xs : List Filled) : Prop where
  located : ∀ e ∈ index.take n, Located base xs e
  unused : ∀ e ∈ index.drop n, e = .zero
  used : ∀ e ∈ (index.take n).tail, e ≠ .zero
  le : n ≤ index.length
  pos : xs ≠ [] ↔ 0 < n

section Indexed

variable {base n m : ℕ} {index : List IndexEntry} {xs : List Filled} {x : Filled} {e : IndexEntry}

lemma indexed_replicate (base m : ℕ) : Indexed base (List.replicate m .zero) 0 [] where
  located _ he := absurd he (by simp)
  unused _ he := List.eq_of_mem_replicate he
  used _ he := absurd he (by simp)
  le := Nat.zero_le _
  pos := by simp

/-- Without a slot in use the index is empty. -/
lemma Indexed.eq_replicate (h : Indexed base index 0 xs) :
    index = List.replicate index.length .zero :=
  List.eq_replicate_iff.mpr ⟨rfl, h.unused⟩

/-- Counting finds the slots in use again. -/
lemma Indexed.countEntries_eq (h : Indexed base index n xs) (hn : 0 < n) :
    LogSegment.countEntries index = n := by
  have hsplit := List.take_append_drop n index
  have hlen : (index.take n).length = n := List.length_take_of_le h.le
  cases htake : index.take n with
  | nil =>
    rw [htake] at hlen
    exact absurd hlen hn.ne
  | cons e es =>
    rw [htake] at hlen hsplit
    have hused : ∀ x ∈ es, x ≠ .zero := by simpa [htake] using h.used
    have hnone : (index.drop n).takeWhile (fun e => e ≠ .zero) = [] := by
      cases hdrop : index.drop n with
      | nil => rfl
      | cons z zs =>
        have hz : z = .zero := h.unused z (by rw [hdrop]; exact List.mem_cons_self)
        rw [List.takeWhile_cons_of_neg (by simp [hz])]
    rw [← hsplit, List.cons_append, LogSegment.countEntries,
      List.takeWhile_append_of_pos (by simpa using hused), hnone, List.append_nil]
    rw [List.length_cons] at hlen
    omega

lemma Indexed.mono (h : Indexed base index n xs) (hne : xs ≠ []) : Indexed base index n (xs ++ [x]) where
  located e he := (h.located e he).mono (List.prefix_append _ _)
  unused := h.unused
  used := h.used
  le := h.le
  pos := ⟨fun _ => h.pos.mp hne, fun _ => by simp⟩

/-- The next slot takes the place behind all batches. -/
lemma Indexed.set (h : Indexed base index n xs) (hn : n < index.length)
    (he : Located base xs e) (hzero : 0 < n → e ≠ .zero) :
    Indexed base (index.set n e) (n + 1) (xs ++ [x]) := by
  have htake : (index.set n e).take (n + 1) = index.take n ++ [e] := by
    rw [List.take_add_one, List.take_set_of_le le_rfl, List.getElem?_set_self hn]
    rfl
  constructor
  · intro e' he'
    rw [htake] at he'
    rcases List.mem_append.mp he' with hold | hnew
    · exact (h.located e' hold).mono (List.prefix_append _ _)
    · exact List.mem_singleton.mp hnew ▸ he.mono (List.prefix_append _ _)
  · intro e' he'
    rw [List.drop_set_of_lt (Nat.lt_succ_self n)] at he'
    exact h.unused e' (List.drop_subset_drop_left _ (Nat.le_succ n) he')
  · intro e' he'
    rw [htake] at he'
    rcases Nat.eq_zero_or_pos n with rfl | hpos
    · simp at he'
    · have hne : index.take n ≠ [] := by
        rw [← List.length_pos_iff, List.length_take_of_le h.le]
        exact hpos
      rw [List.tail_append_of_ne_nil hne] at he'
      rcases List.mem_append.mp he' with hold | hnew
      · exact h.used e' hold
      · exact List.mem_singleton.mp hnew ▸ hzero hpos
  · rw [List.length_set]
    exact hn
  · exact ⟨fun _ => Nat.succ_pos n, fun _ => by simp⟩

end Indexed

/-! ### Stored segments and their writers -/

def SegmentConfig.maxEntries (opts : SegmentConfig) : ℕ :=
  opts.segmentBytes / opts.indexIntervalBytes + 1

/-- The files of the segment at `base` hold exactly the batches `xs`, with `n` index entries. -/
structure Stored (m : ℕ) (f : SegmentFile) (base n : ℕ) (xs : List Filled) : Prop where
  chained : Chained base xs
  log : f.log = bytes xs
  indexed : Indexed base f.index n xs
  length : f.index.length = m

/-- The writer is in step with its files. -/
structure Writes (m : ℕ) (d : Disk) (seg : LogSegment) (xs : List Filled) : Prop where
  stored : Stored m (d.file seg.segment.baseOffset) seg.segment.baseOffset seg.indexCount xs
  size_eq : seg.size = (bytes xs).length
  writePos : seg.indexWritePos = seg.indexCount * indexEntrySize
  due : xs = [] → seg.indexThresholdBytes ≤ seg.bytesSinceLastIndex

/-- The writer's handle stands at the end of the log file. -/
def AtEnd (d : Disk) (seg : LogSegment) : Prop :=
  seg.cursor = (d.file seg.segment.baseOffset).log.length

instance (d : Disk) (seg : LogSegment) : Decidable (AtEnd d seg) :=
  inferInstanceAs (Decidable (_ = _))

section Writes

variable {m base n : ℕ} {d : Disk} {f : SegmentFile} {seg : LogSegment} {xs : List Filled}
  {opts : SegmentConfig}

lemma Stored.holds (h : Stored m f base n xs) : Holds f ⟨base, n, (bytes xs).length⟩ xs :=
  ⟨h.chained, h.log ▸ List.prefix_refl _, rfl, h.indexed.located, h.indexed.le⟩

/-- What the writer publishes reaches all of its batches. -/
lemma Writes.holds (h : Writes m d seg xs) :
    Holds (d.file seg.segment.baseOffset) seg.publish.1 xs := by
  have hholds := h.stored.holds
  rw [← h.size_eq] at hholds
  exact hholds

/-! ### Opening -/

/-- A segment without a log is opened as an empty one. -/
lemma openSegment_fresh (opts : SegmentConfig) (d : Disk) (hlog : (d.file opts.baseOffset).log = []) :
    Writes opts.maxEntries (LogSegment.openSegment opts d).2 (LogSegment.openSegment opts d).1 [] ∧
      AtEnd (LogSegment.openSegment opts d).2 (LogSegment.openSegment opts d).1 ∧
      (LogSegment.openSegment opts d).2
        = d.put opts.baseOffset ⟨[], List.replicate opts.maxEntries .zero⟩ ∧
      (LogSegment.openSegment opts d).1.indexCount = 0 := by
  have hopen : LogSegment.openSegment opts d =
      (⟨⟨opts.baseOffset, 0, 0⟩, 0, 0, 0, 0, opts.indexIntervalBytes, opts.indexIntervalBytes⟩,
        d.put opts.baseOffset ⟨[], List.replicate opts.maxEntries .zero⟩) := by
    simp [LogSegment.openSegment, hlog, SegmentConfig.maxEntries]
  rw [hopen]
  refine ⟨⟨⟨trivial, ?_, ?_, ?_⟩, rfl, rfl, fun _ => le_rfl⟩, ?_, rfl, rfl⟩
  · simp
  · simpa using indexed_replicate opts.baseOffset opts.maxEntries
  · simp
  · simp [AtEnd]

/-- A segment with batches is opened as it was left, except for the place of the handle. -/
lemma openSegment_stored (h : Stored opts.maxEntries (d.file opts.baseOffset) opts.baseOffset n xs)
    (hne : xs ≠ []) :
    Writes opts.maxEntries (LogSegment.openSegment opts d).2 (LogSegment.openSegment opts d).1 xs ∧
      (LogSegment.openSegment opts d).2
        = d.put opts.baseOffset (d.file opts.baseOffset) ∧
      (LogSegment.openSegment opts d).1.indexCount = n := by
  have hlen : (bytes xs).length ≠ 0 := fun hzero => hne (bytes_eq_nil hzero)
  have hfile : (⟨bytes xs, (d.file opts.baseOffset).index⟩ : SegmentFile)
      = d.file opts.baseOffset := by rw [← h.log]
  have hindex : ((d.file opts.baseOffset).index.take opts.maxEntries).rightpad opts.maxEntries .zero
      = (d.file opts.baseOffset).index := by
    rw [List.take_of_length_le h.length.le, List.rightpad, h.length, Nat.sub_self,
      List.replicate_zero, List.append_nil]
  have hcount := h.indexed.countEntries_eq (h.indexed.pos.mp hne)
  have hopen : LogSegment.openSegment opts d =
      (⟨⟨opts.baseOffset, 0, 0⟩, 0, n * indexEntrySize, (bytes xs).length, n, 0,
        opts.indexIntervalBytes⟩, d.put opts.baseOffset (d.file opts.baseOffset)) := by
    rw [SegmentConfig.maxEntries] at hindex
    simp only [LogSegment.openSegment, h.log, hlen, if_false, hindex, hcount, hfile]
  rw [hopen]
  refine ⟨⟨?_, rfl, rfl, fun hnil => absurd hnil hne⟩, rfl, rfl⟩
  simpa using h

/-- Opening a segment again leaves its files as they are. -/
lemma Stored.openSegment (opts : SegmentConfig)
    (h : Stored opts.maxEntries (d.file opts.baseOffset) opts.baseOffset n xs)
    (hmem : opts.baseOffset ∈ d.files) :
    Writes opts.maxEntries (LogSegment.openSegment opts d).2 (LogSegment.openSegment opts d).1 xs ∧
      d.Agrees (LogSegment.openSegment opts d).2 ∧
      (LogSegment.openSegment opts d).1.indexCount = n ∧
      (xs = [] → AtEnd (LogSegment.openSegment opts d).2 (LogSegment.openSegment opts d).1) := by
  have hagrees := Disk.agrees_put hmem
  by_cases hne : xs = []
  · subst hne
    have hzero : n = 0 := Nat.eq_zero_of_not_pos fun hn => h.indexed.pos.mpr hn rfl
    subst hzero
    have hindex := h.indexed.eq_replicate
    rw [h.length] at hindex
    have hfile : d.file opts.baseOffset = ⟨[], List.replicate opts.maxEntries .zero⟩ := by
      rw [← hindex, ← show (d.file opts.baseOffset).log = [] from h.log]
    obtain ⟨hwrites, hend, hdisk, hcount⟩ := openSegment_fresh opts d h.log
    rw [hfile, ← hdisk] at hagrees
    exact ⟨hwrites, hagrees, hcount, fun _ => hend⟩
  · obtain ⟨hwrites, hdisk, hcount⟩ := openSegment_stored h hne
    rw [← hdisk] at hagrees
    exact ⟨hwrites, hagrees, hcount, fun hnil => absurd hnil hne⟩

/-- The records of a segment are counted by reading it. -/
lemma Writes.recordsCount_eq (h : Writes m d seg xs) :
    seg.recordsCount d = some (xs.flatMap Filled.recs).length := by
  have hbatches : BatchIter.batches ⟨(d.file seg.segment.baseOffset).log, 0, seg.size⟩
      = (xs.map Filled.batch).map some := by
    have hbytes := batches_bytes xs []
    rwa [List.append_nil, ← h.size_eq, ← h.stored.log] at hbytes
  have hsum : ((xs.map Filled.batch).map fun b => b.recordsCount.toNat).sum
      = (xs.flatMap Filled.recs).length := by
    rw [List.length_flatMap, List.map_map]
    exact congrArg List.sum (List.map_congr_left fun x _ => x.count_eq)
  rw [LogSegment.recordsCount_of_batches hbatches, hsum]

/-! ### Appending -/

/-- Only the segment at `base` is written to: its log grows, and its first `n` slots stay. -/
structure Extends (d d' : Disk) (base n : ℕ) : Prop where
  other : ∀ k, k ≠ base → d'.file k = d.file k
  mem : ∀ k, k ∈ d'.files ↔ k ∈ d.files
  log : (d.file base).log <+: (d'.file base).log
  index : ∀ i ≤ n, (d'.file base).index.take i = (d.file base).index.take i
  length : (d'.file base).index.length = (d.file base).index.length

lemma extends_extend (hmem : base ∈ d.files) (data : List UInt8) (n : ℕ) :
    Extends d (d.extend base data) base n where
  other _ hk := d.file_extend_ne _ _ hk
  mem k := by
    rw [Disk.mem_extend]
    exact ⟨fun h => h.elim (fun hk => hk ▸ hmem) id, .inr⟩
  log := by
    rw [Disk.file_extend]
    exact List.prefix_append _ _
  index i _ := by rw [Disk.file_extend]
  length := by rw [Disk.file_extend]

lemma Extends.set {d' : Disk} (h : Extends d d' base n) (hmem : base ∈ d.files) (e : IndexEntry) :
    Extends d (d'.put base ⟨(d'.file base).log, (d'.file base).index.set n e⟩) base n where
  other k hk := (Disk.file_put_ne _ _ _ hk).trans (h.other k hk)
  mem k := by
    rw [Disk.mem_put, h.mem]
    exact ⟨fun hk => hk.elim (fun hk => hk ▸ hmem) id, .inr⟩
  log := by simpa using h.log
  index i hi := by
    rw [Disk.file_put, List.take_set_of_le hi]
    exact h.index i hi
  length := by simpa using h.length

/-- An append that does not fit on the disk leaves no writer. -/
lemma AtEnd.appendBatch_none (he : AtEnd d seg) (hmem : seg.segment.baseOffset ∈ d.files)
    {b : RecordBatch} (hfree : d.free < b.encode.length) :
    ∃ d', seg.appendBatch d b = (none, d') ∧
      Extends d d' seg.segment.baseOffset seg.indexCount := by
  rw [LogSegment.appendBatch, he, Disk.write_end, decide_eq_false (Nat.not_le.mpr hfree)]
  exact ⟨_, rfl, extends_extend hmem _ _⟩

/-- An append at the end of the log that fits, with and without a note in the index. -/
lemma AtEnd.appendBatch_some (he : AtEnd d seg) {b : RecordBatch} (hfree : b.encode.length ≤ d.free) :
    seg.appendBatch d b =
      (let base := seg.segment.baseOffset
       let d' := d.extend base b.encode
       let bytesSince := seg.bytesSinceLastIndex + (batchHeaderPrefix + b.batchLength.toNat)
       let seg' := { seg with
         cursor := seg.cursor + b.encode.length
         size := seg.size + (batchHeaderPrefix + b.batchLength.toNat) }
       if seg.indexThresholdBytes ≤ bytesSince ∧
           seg.indexWritePos + indexEntrySize ≤ (d.file base).index.length * indexEntrySize then
         (some { seg' with
            indexWritePos := seg.indexWritePos + indexEntrySize
            indexCount := seg.indexCount + 1
            bytesSinceLastIndex := 0 },
          d'.put base ⟨(d'.file base).log, (d'.file base).index.set
            (seg.indexWritePos / indexEntrySize)
            ⟨b.baseOffset, UInt64.ofNat (d.file base).log.length⟩⟩)
       else (some { seg' with bytesSinceLastIndex := bytesSince }, d')) := by
  have hcursor : seg.cursor = (d.file seg.segment.baseOffset).log.length := he
  have hwrite := d.write_end seg.segment.baseOffset b.encode
  rw [decide_eq_true hfree, List.take_of_length_le hfree, ← hcursor] at hwrite
  simp only [LogSegment.appendBatch, hwrite, Disk.file_extend]

lemma AtEnd.exists_appendBatch (he : AtEnd d seg) {b : RecordBatch}
    (hfree : b.encode.length ≤ d.free) :
    ∃ seg' d', seg.appendBatch d b = (some seg', d') := by
  rw [he.appendBatch_some hfree]
  simp only []
  split_ifs
  · exact ⟨_, _, rfl⟩
  · exact ⟨_, _, rfl⟩

/-- An append at the end of the log that fits keeps the writer in step with its files. -/
theorem Writes.appendBatch (h : Writes m d seg xs) (he : AtEnd d seg) (hm : 0 < m)
    (hmem : seg.segment.baseOffset ∈ d.files) {x : Filled}
    (hx : x.batch.baseOffset.toNat = endOffset seg.segment.baseOffset xs)
    (hlen : (bytes xs).length < 2 ^ 64) (hfree : x.batch.encode.length ≤ d.free) :
    ∃ seg' d', seg.appendBatch d x.batch = (some seg', d') ∧ Writes m d' seg' (xs ++ [x]) ∧
      AtEnd d' seg' ∧ Extends d d' seg.segment.baseOffset seg.indexCount ∧
      d'.free + x.batch.encode.length = d.free ∧ seg'.segment = seg.segment ∧
      seg.indexCount ≤ seg'.indexCount := by
  have hchained : Chained seg.segment.baseOffset (xs ++ [x]) :=
    chained_append.mpr ⟨h.stored.chained, hx, trivial⟩
  have hbytes : bytes (xs ++ [x]) = bytes xs ++ x.batch.encode := by simp [bytes]
  have hsize : seg.size + (batchHeaderPrefix + x.batch.batchLength.toNat)
      = (bytes (xs ++ [x])).length := by
    rw [hbytes, List.length_append, h.size_eq, x.carries.sized.length_encode]
  have hlog : (d.file seg.segment.baseOffset).log ++ x.batch.encode = bytes (xs ++ [x]) := by
    rw [hbytes, h.stored.log]
  have hcursor : seg.cursor + x.batch.encode.length = (bytes (xs ++ [x])).length := by
    rw [show seg.cursor = _ from he, ← hlog, List.length_append]
  have hext := extends_extend hmem x.batch.encode seg.indexCount
  have hfree' : (d.extend seg.segment.baseOffset x.batch.encode).free + x.batch.encode.length
      = d.free := Nat.sub_add_cancel hfree
  rw [he.appendBatch_some hfree]
  simp only []
  have hslot : seg.indexWritePos / indexEntrySize = seg.indexCount := by
    rw [h.writePos, Nat.mul_div_cancel _ (by decide)]
  split_ifs with hdue
  · have hroom : seg.indexCount < (d.file seg.segment.baseOffset).index.length := by
      have hle := hdue.2
      rw [h.writePos, ← Nat.succ_mul] at hle
      exact Nat.le_of_mul_le_mul_right hle (by decide)
    have hpos : (UInt64.ofNat (d.file seg.segment.baseOffset).log.length).toNat
        = (bytes xs).length := by
      rw [h.stored.log]
      exact UInt64.toNat_ofNat_of_lt' hlen
    have hlocated : Located seg.segment.baseOffset xs
        ⟨x.batch.baseOffset, UInt64.ofNat (d.file seg.segment.baseOffset).log.length⟩ :=
      ⟨xs, List.prefix_refl _, hx, hpos⟩
    have hindexed := h.stored.indexed.set (x := x) hroom hlocated fun hn hzero => by
      have hne := h.stored.indexed.pos.mpr hn
      have hnil : (bytes xs).length = 0 := by
        rw [← hpos, (IndexEntry.mk.inj hzero).2]
        rfl
      exact hne (bytes_eq_nil hnil)
    rw [hslot]
    refine ⟨_, _, rfl, ⟨⟨hchained, ?_, ?_, ?_⟩, hsize, ?_, by simp⟩, ?_,
      hext.set hmem _, hfree', rfl, Nat.le_succ _⟩
    · simpa using hlog
    · simpa using hindexed
    · simpa using h.stored.length
    · rw [h.writePos, Nat.succ_mul]
    · simpa [AtEnd, hlog] using hcursor
  · have hne : xs ≠ [] := by
      intro hnil
      have hzero : seg.indexCount = 0 :=
        Nat.eq_zero_of_not_pos fun hn => h.stored.indexed.pos.mpr hn hnil
      refine hdue ⟨(h.due hnil).trans (Nat.le_add_right _ _), ?_⟩
      rw [h.writePos, hzero, h.stored.length, Nat.zero_mul, Nat.zero_add]
      exact Nat.le_mul_of_pos_left _ hm
    refine ⟨_, _, rfl, ⟨⟨hchained, ?_, ?_, ?_⟩, hsize, h.writePos, by simp⟩, ?_, hext, hfree', rfl,
      le_rfl⟩
    · simpa using hlog
    · simpa using h.stored.indexed.mono hne
    · simpa using h.stored.length
    · simpa [AtEnd, hlog] using hcursor

/-- Append the batches in turn; no writer is left when a write fails. -/
def LogSegment.appendAll (seg : LogSegment) (d : Disk) :
    List RecordBatch → Option LogSegment × Disk
  | [] => (some seg, d)
  | b :: bs => match seg.appendBatch d b with
    | (none, d) => (none, d)
    | (some seg, d) => seg.appendAll d bs

/-- Appends that all succeed keep the writer in step with its files. -/
theorem Writes.appendAll {seg' : LogSegment} {d' : Disk} (h : Writes m d seg xs) (he : AtEnd d seg)
    (hm : 0 < m) (hmem : seg.segment.baseOffset ∈ d.files)
    (hroom : (bytes xs).length + d.free < 2 ^ 63) {ys : List Filled}
    (hys : Chained (endOffset seg.segment.baseOffset xs) ys)
    (happend : seg.appendAll d (ys.map Filled.batch) = (some seg', d')) :
    Writes m d' seg' (xs ++ ys) ∧ seg'.segment = seg.segment := by
  induction ys generalizing d seg xs with
  | nil =>
    cases happend
    rw [List.append_nil]
    exact ⟨h, rfl⟩
  | cons y ys ih =>
    rw [List.map_cons, LogSegment.appendAll] at happend
    rcases Nat.lt_or_ge d.free y.batch.encode.length with hfull | hfree
    · obtain ⟨d₁, hnone, -⟩ := he.appendBatch_none hmem hfull
      rw [hnone] at happend
      cases happend
    · obtain ⟨seg₁, d₁, hsome, hwrites, hend, hext, hleft, hseg, -⟩ :=
        h.appendBatch he hm hmem hys.1 ((Nat.le_add_right _ _).trans_lt (hroom.trans (by decide)))
          hfree
      have hbytes : (bytes (xs ++ [y])).length = (bytes xs).length + y.batch.encode.length := by
        rw [bytes_append, bytes_cons, bytes_nil, List.append_nil, List.length_append]
      have hoffset : endOffset seg₁.segment.baseOffset (xs ++ [y])
          = endOffset seg.segment.baseOffset xs + y.recs.length := by
        rw [hseg, endOffset_append, endOffset_cons, endOffset_nil]
      rw [hsome] at happend
      obtain ⟨hwrites', hseg'⟩ := ih hwrites hend (by rwa [hseg, hext.mem])
        (by rw [hbytes]; omega) (hoffset ▸ hys.2) happend
      rw [List.append_assoc, List.singleton_append] at hwrites'
      exact ⟨hwrites', hseg'.trans hseg⟩

end Writes

end Musil.Storage
