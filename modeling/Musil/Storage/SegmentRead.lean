import Musil.Proto.WellFormed
import Musil.Storage.Segment

/-!
# Reading a segment

`Holds f v xs` says that a segment's files, as far as the view `v` reaches, hold the batches `xs`
and index entries of some of them. Then the iterator from an offset yields the batches that end
behind it, and a fetch returns records from the fetch offset on, without a gap.
-/

namespace Musil.Storage

open Bytes Proto BatchIter

/-! ### Batches that follow each other -/

/-- The batches have the offsets from `base` on. -/
def Chained : ℕ → List Filled → Prop
  | _, [] => True
  | base, x :: xs => x.batch.baseOffset.toNat = base ∧ Chained (base + x.recs.length) xs

def endOffset (base : ℕ) (xs : List Filled) : ℕ :=
  base + (xs.flatMap Filled.recs).length

/-- The bytes of the batches in a log file. -/
def bytes (xs : List Filled) : List UInt8 :=
  layout (xs.map Filled.batch)

/-- The batches that end behind an offset. -/
def fromOffset (target : ℕ) (xs : List Filled) : List Filled :=
  xs.dropWhile fun x => x.batch.baseOffset.toNat + x.recs.length ≤ target

section Chained

variable {base target : ℕ} {x : Filled} {xs ys : List Filled}

@[simp] lemma endOffset_nil : endOffset base [] = base := rfl

lemma endOffset_cons : endOffset base (x :: xs) = endOffset (base + x.recs.length) xs := by
  simp only [endOffset, List.flatMap_cons, List.length_append]
  omega

lemma endOffset_append : endOffset base (xs ++ ys) = endOffset (endOffset base xs) ys := by
  simp only [endOffset, List.flatMap_append, List.length_append]
  omega

lemma le_endOffset : base ≤ endOffset base xs :=
  Nat.le_add_right _ _

@[simp] lemma bytes_nil : bytes [] = [] := rfl

lemma bytes_cons : bytes (x :: xs) = x.batch.encode ++ bytes xs := by
  simp [bytes]

lemma bytes_append : bytes (xs ++ ys) = bytes xs ++ bytes ys := by
  simp [bytes]

lemma sized_of_mem : ∀ b ∈ xs.map Filled.batch, b.Sized := by
  intro b hb
  obtain ⟨x, -, rfl⟩ := List.mem_map.mp hb
  exact x.carries.sized

/-- The batches at the front of a log file are read back. -/
lemma batches_bytes (xs : List Filled) (tail : List UInt8) :
    batches ⟨bytes xs ++ tail, 0, (bytes xs).length⟩ = (xs.map Filled.batch).map some :=
  batches_layout_front sized_of_mem tail

lemma bytes_eq_nil (h : (bytes xs).length = 0) : xs = [] := by
  cases xs with
  | nil => rfl
  | cons x xs =>
    rw [bytes_cons, List.length_append, RecordBatch.length_encode, headerSize] at h
    omega

/-- Every record takes at least a byte. -/
lemma length_recs_le : (xs.flatMap Filled.recs).length ≤ (bytes xs).length := by
  induction xs with
  | nil => exact le_rfl
  | cons x xs ih =>
    rw [List.flatMap_cons, bytes_cons, List.length_append, List.length_append]
    exact Nat.add_le_add x.length_le ih

lemma chained_append :
    Chained base (xs ++ ys) ↔ Chained base xs ∧ Chained (endOffset base xs) ys := by
  induction xs generalizing base with
  | nil => simp [Chained]
  | cons x xs ih => simp only [List.cons_append, Chained, ih, endOffset_cons, and_assoc]

lemma Chained.of_isPrefix (h : Chained base ys) (hp : xs <+: ys) : Chained base xs := by
  obtain ⟨zs, rfl⟩ := hp
  exact (chained_append.mp h).1

lemma fromOffset_suffix : fromOffset target xs <:+ xs :=
  List.dropWhile_suffix _

/-- What ends at or before the target is passed over. -/
lemma fromOffset_cons_of_le (h : x.batch.baseOffset.toNat + x.recs.length ≤ target) :
    fromOffset target (x :: xs) = fromOffset target xs :=
  List.dropWhile_cons_of_pos (by simpa using h)

lemma fromOffset_append (hc : Chained base xs) (ht : endOffset base xs ≤ target) :
    fromOffset target (xs ++ ys) = fromOffset target ys := by
  induction xs generalizing base with
  | nil => rfl
  | cons x xs ih =>
    rw [endOffset_cons] at ht
    have hend : x.batch.baseOffset.toNat + x.recs.length ≤ target :=
      hc.1 ▸ le_endOffset.trans ht
    rw [List.cons_append, fromOffset_cons_of_le hend]
    exact ih hc.2 ht

lemma fromOffset_cons_of_lt (hb : x.batch.baseOffset.toNat = base)
    (ht : target < base + x.recs.length) : fromOffset target (x :: xs) = x :: xs :=
  List.dropWhile_cons_of_neg (by simpa [hb] using ht)

lemma fromOffset_of_le (hc : Chained base xs) (ht : target ≤ base) : fromOffset target xs = xs := by
  cases xs with
  | nil => rfl
  | cons x xs => exact fromOffset_cons_of_lt hc.1 (by have := x.length_pos; omega)

/-- Below the end there is a batch with the target in it. -/
lemma exists_fromOffset (hc : Chained base xs) (hb : base ≤ target)
    (ht : target < endOffset base xs) : ∃ pre x post, xs = pre ++ x :: post ∧
      fromOffset target xs = x :: post ∧ x.batch.baseOffset.toNat = endOffset base pre ∧
      endOffset base pre ≤ target ∧ target < endOffset base pre + x.recs.length := by
  induction xs generalizing base with
  | nil => exact absurd ht (Nat.not_lt.mpr hb)
  | cons x xs ih =>
    rcases Nat.lt_or_ge target (base + x.recs.length) with hlt | hge
    · exact ⟨[], x, xs, rfl, fromOffset_cons_of_lt hc.1 hlt, hc.1, hb, hlt⟩
    · obtain ⟨pre, y, post, rfl, hfrom, hbase, hle, hlt⟩ := ih hc.2 hge (endOffset_cons ▸ ht)
      refine ⟨x :: pre, y, post, rfl, ?_, by rwa [endOffset_cons], by rwa [endOffset_cons],
        by rwa [endOffset_cons]⟩
      exact (fromOffset_cons_of_le (hc.1 ▸ hge)).trans hfrom

end Chained

/-! ### What a view reaches -/

/-- An index entry names the place behind some of the batches. -/
def Located (base : ℕ) (xs : List Filled) (e : IndexEntry) : Prop :=
  ∃ pre, pre <+: xs ∧ e.offset.toNat = endOffset base pre ∧ e.pos.toNat = (bytes pre).length

lemma Located.mono {base : ℕ} {xs ys : List Filled} {e : IndexEntry} (h : Located base xs e)
    (hp : xs <+: ys) : Located base ys e := by
  obtain ⟨pre, hpre, hrest⟩ := h
  exact ⟨pre, hpre.trans hp, hrest⟩

structure Holds (f : SegmentFile) (v : SegmentView) (xs : List Filled) : Prop where
  chained : Chained v.baseOffset xs
  log : bytes xs <+: f.log
  size_eq : v.size = (bytes xs).length
  index : ∀ e ∈ f.index.take v.indexCount, Located v.baseOffset xs e
  count_le : v.indexCount ≤ f.index.length

section Search

variable {f : SegmentFile} {v : SegmentView} {xs : List Filled} {target : ℕ}

/-- A file that only grows keeps what a view reaches. -/
lemma Holds.frame {f' : SegmentFile} (h : Holds f v xs) (hlog : f.log <+: f'.log)
    (hindex : f'.index.take v.indexCount = f.index.take v.indexCount)
    (hlen : f.index.length ≤ f'.index.length) : Holds f' v xs :=
  ⟨h.chained, h.log.trans hlog, h.size_eq, hindex ▸ h.index, h.count_le.trans hlen⟩

lemma Holds.length_lt (h : Holds f v xs) : xs.length < v.size + 1 := by
  have hle := length_le_layout (xs.map Filled.batch)
  rw [List.length_map] at hle
  rw [h.size_eq]
  exact Nat.lt_succ_of_le hle

/-- The slot before the result of the search is at or below the target. -/
lemma search_spec (f : SegmentFile) (target fuel : ℕ) {n lo hi : ℕ} (hlo : lo ≤ n) (hhi : hi < n)
    (hbelow : lo = 0 ∨ (f.index.getD (lo - 1) .zero).offset.toNat ≤ target) :
    SegmentView.search f target fuel lo hi ≤ n ∧
      (SegmentView.search f target fuel lo hi = 0 ∨
        (f.index.getD (SegmentView.search f target fuel lo hi - 1) .zero).offset.toNat ≤ target) := by
  induction fuel generalizing lo hi with
  | zero => exact ⟨hlo, hbelow⟩
  | succ fuel ih =>
    simp only [SegmentView.search]
    split_ifs with hstop hle hmid
    · exact ⟨hlo, hbelow⟩
    · exact ih (by omega) hhi (.inr hle)
    · exact ⟨hlo, hbelow⟩
    · exact ih hlo (by omega) hbelow

/-- The search has come to its end when the fuel is used up. -/
lemma search_fuel {fuel lo hi : ℕ} (h : hi < lo + fuel) (k : ℕ) :
    SegmentView.search f target (fuel + k) lo hi = SegmentView.search f target fuel lo hi := by
  induction fuel generalizing lo hi with
  | zero =>
    cases k with
    | zero => rfl
    | succ k =>
      simp only [SegmentView.search]
      exact if_pos h
  | succ fuel ih =>
    rw [Nat.add_right_comm]
    simp only [SegmentView.search]
    split_ifs with hstop hle hmid
    · rfl
    · exact ih (by omega)
    · rfl
    · exact ih (by omega)

lemma Holds.findPhysicalPosition (h : Holds f v xs) (target : ℕ) :
    v.findPhysicalPosition f target = none ∨
      ∃ e, v.findPhysicalPosition f target = some e ∧ e.offset.toNat ≤ target ∧
        Located v.baseOffset xs e := by
  rw [SegmentView.findPhysicalPosition]
  split_ifs with hzero
  · exact .inl rfl
  · obtain ⟨hle, hspec⟩ := search_spec f target v.indexCount
      (Nat.zero_le v.indexCount) (Nat.sub_lt (Nat.pos_of_ne_zero hzero) Nat.one_pos) (.inl rfl)
    split
    · exact .inl rfl
    · next lo hlo =>
      rw [hlo] at hle hspec
      refine .inr ⟨_, rfl, hspec.resolve_left (Nat.succ_ne_zero lo), h.index _ ?_⟩
      have hlt : lo < f.index.length := hle.trans h.count_le
      rw [List.getD_eq_getElem?_getD, List.getElem?_eq_getElem hlt]
      exact List.mem_take_iff_getElem.mpr ⟨lo, by omega, rfl⟩

/-- The linear search finds the first batch that ends behind the target. -/
lemma linearSearch_spec (v : SegmentView) (target : ℕ) (pre : List Filled) {base fuel : ℕ}
    {post : List Filled} {tail : List UInt8}
    (hc : Chained base (pre ++ post)) (hsize : v.size = (bytes (pre ++ post)).length)
    (hlog : f.log = bytes (pre ++ post) ++ tail) (hfuel : post.length < fuel)
    (hle : endOffset base pre ≤ target) :
    v.linearSearch f target fuel (endOffset base pre) (bytes pre).length =
      if target ≤ endOffset base (pre ++ post) then
        some ((bytes (pre ++ post)).length - (bytes (fromOffset target post)).length)
      else none := by
  induction post generalizing pre fuel with
  | nil =>
    obtain ⟨fuel, rfl⟩ : ∃ n, fuel = n + 1 := Nat.exists_eq_succ_of_ne_zero hfuel.ne'
    rw [List.append_nil] at hsize ⊢
    rw [SegmentView.linearSearch]
    by_cases ht : target ≤ endOffset base pre
    · rw [if_pos ht, if_pos ht]
      rfl
    · rw [if_neg ht, if_neg ht, if_pos hsize.le]
  | cons x post ih =>
    obtain ⟨fuel, rfl⟩ : ∃ n, fuel = n + 1 :=
      Nat.exists_eq_succ_of_ne_zero (Nat.zero_lt_of_lt hfuel).ne'
    have hbytes : bytes (pre ++ x :: post) = bytes pre ++ x.batch.encode ++ bytes post := by
      rw [bytes_append, bytes_cons, List.append_assoc]
    have hhere : (bytes (pre ++ x :: post)).length - (bytes (x :: post)).length
        = (bytes pre).length := by
      rw [bytes_append, List.length_append, Nat.add_sub_cancel]
    have hend : endOffset base (pre ++ x :: post)
        = endOffset (endOffset base pre + x.recs.length) post := by
      rw [endOffset_append, endOffset_cons]
    have hbase := (chained_append.mp hc).2.1
    have hpos := x.length_pos
    have hwithin : endOffset base pre + x.recs.length ≤ endOffset base (pre ++ x :: post) :=
      hend ▸ le_endOffset
    rw [SegmentView.linearSearch]
    by_cases ht : target ≤ endOffset base pre
    · rw [if_pos ht, if_pos (by omega), fromOffset_cons_of_lt hbase (by omega), hhere]
    · have hsizePos : ¬ v.size ≤ (bytes pre).length := by
        rw [hsize, hbytes, List.length_append, List.length_append, RecordBatch.length_encode,
          headerSize]
        omega
      have hlength : ofBE (readAt f.log ((bytes pre).length + 8) 4)
          = x.batch.batchLength.toNat := by
        rw [hlog, hbytes, List.append_assoc _ (bytes post)]
        exact RecordBatch.readAt_batchLength ..
      have hcount : ofBE (readAt f.log ((bytes pre).length + (headerSize - 4)) 4)
          = x.recs.length := by
        rw [hlog, hbytes, List.append_assoc _ (bytes post), RecordBatch.readAt_recordsCount,
          x.count_eq]
      rw [if_neg ht, if_neg hsizePos]
      simp only [hlength, hcount]
      by_cases hin : target < endOffset base pre + x.recs.length
      · rw [if_pos hin, if_pos (by omega), fromOffset_cons_of_lt hbase hin, hhere]
      · have hnext : pre ++ x :: post = (pre ++ [x]) ++ post := by simp
        have hoffset : endOffset base (pre ++ [x]) = endOffset base pre + x.recs.length := by
          rw [endOffset_append, endOffset_cons, endOffset_nil]
        have hplace : (bytes (pre ++ [x])).length
            = (bytes pre).length + batchHeaderPrefix + x.batch.batchLength.toNat := by
          rw [bytes_append, bytes_cons, bytes_nil, List.append_nil, List.length_append,
            x.carries.sized.length_encode, Nat.add_assoc]
        have hskip : fromOffset target (x :: post) = fromOffset target post :=
          fromOffset_cons_of_le (by omega)
        rw [hnext] at hc hsize hlog
        have hrest := ih (pre ++ [x]) hc hsize hlog (Nat.lt_of_succ_lt_succ hfuel) (by omega)
        rw [hoffset, hplace] at hrest
        rw [if_neg hin, hrest, hskip, ← hnext]

/-- The iterator from an offset that is not past the end yields the batches that end behind it. -/
theorem Holds.batchIterFrom (h : Holds f v xs) (ht : target ≤ endOffset v.baseOffset xs) :
    ∃ it, v.batchIterFrom f target = some it ∧
      it.batches = (fromOffset target xs).map fun x => some x.batch := by
  obtain ⟨tail, hlog⟩ := h.log
  obtain ⟨pre, hpre⟩ : fromOffset target xs <:+ xs := fromOffset_suffix
  have hbatches : (⟨f.log, (bytes xs).length - (bytes (fromOffset target xs)).length, v.size⟩ :
      BatchIter).batches = (fromOffset target xs).map fun x => some x.batch := by
    have hsplit : bytes xs = bytes pre ++ bytes (fromOffset target xs) := by
      rw [← bytes_append, hpre]
    have hstart : (bytes xs).length - (bytes (fromOffset target xs)).length
        = (bytes pre).length := by
      rw [hsplit, List.length_append, Nat.add_sub_cancel]
    have hiter := batches_layout (@sized_of_mem (fromOffset target xs)) (bytes pre) tail
    rw [List.map_map] at hiter
    rw [hstart, h.size_eq, ← hlog, hsplit, List.length_append]
    exact hiter
  have hfuel := h.length_lt
  rw [SegmentView.batchIterFrom]
  rcases h.findPhysicalPosition target with hnone | ⟨e, hsome, hle, p, hp, hoffset, hpos⟩
  · rw [hnone]
    simp only []
    split_ifs with hsize
    · rcases Nat.le_total v.baseOffset target with hb | hb
      · have hsearch := linearSearch_spec v target [] h.chained h.size_eq hlog.symm
          hfuel hb
        rw [List.nil_append, if_pos ht] at hsearch
        exact ⟨_, congrArg _ hsearch, hbatches⟩
      · have hall := fromOffset_of_le h.chained hb
        rw [hall, Nat.sub_self] at hbatches
        refine ⟨_, by rw [SegmentView.linearSearch, if_pos hb]; rfl, hall ▸ hbatches⟩
    · have hnil : xs = [] := bytes_eq_nil (by rw [← h.size_eq]; omega)
      subst hnil
      exact ⟨_, rfl, rfl⟩
  · rw [hsome]
    obtain ⟨post, rfl⟩ := hp
    have hlength : post.length < v.size + 1 := by
      rw [List.length_append] at hfuel
      omega
    have hsearch := linearSearch_spec v target p h.chained h.size_eq hlog.symm
      hlength (hoffset ▸ hle)
    have hskip : fromOffset target (p ++ post) = fromOffset target post :=
      fromOffset_append (chained_append.mp h.chained).1 (hoffset ▸ hle)
    rw [if_pos ht, ← hskip] at hsearch
    refine ⟨_, by simp only [hoffset, hpos, hsearch]; rfl, hbatches⟩

/-- Past the end there is no batch. -/
theorem Holds.batchIterFrom_past (h : Holds f v xs) (ht : endOffset v.baseOffset xs < target) :
    v.batchIterFrom f target = none ∨
      ∃ it, v.batchIterFrom f target = some it ∧ it.batches = [] := by
  obtain ⟨tail, hlog⟩ := h.log
  have hfuel := h.length_lt
  rw [SegmentView.batchIterFrom]
  rcases h.findPhysicalPosition target with hnone | ⟨e, hsome, hle, p, hp, hoffset, hpos⟩
  · rw [hnone]
    simp only []
    split_ifs with hsize
    · have hsearch := linearSearch_spec v target [] h.chained h.size_eq hlog.symm hfuel
        (le_endOffset.trans ht.le)
      rw [List.nil_append, if_neg (Nat.not_le.mpr ht)] at hsearch
      exact .inl (congrArg _ hsearch)
    · exact .inr ⟨_, rfl, rfl⟩
  · rw [hsome]
    obtain ⟨post, rfl⟩ := hp
    have hlength : post.length < v.size + 1 := by
      rw [List.length_append] at hfuel
      omega
    have hsearch := linearSearch_spec v target p h.chained h.size_eq hlog.symm
      hlength (hoffset ▸ hle)
    rw [if_neg (Nat.not_le.mpr ht)] at hsearch
    exact .inl (by simp only [hoffset, hpos, hsearch]; rfl)

end Search

/-! ### Fetching -/

/-- The batches behind the first one are taken from the front. -/
lemma fetchMore_spec (maxBytes count : UInt32) (xs : List Filled) :
    ∃ ys, ys <+: xs ∧ SegmentView.fetchMore maxBytes count (xs.map fun x => some x.batch)
      = some (ys.map Filled.batch) := by
  induction xs generalizing count with
  | nil => exact ⟨[], List.nil_prefix, rfl⟩
  | cons x xs ih =>
    rw [List.map_cons, SegmentView.fetchMore]
    split_ifs
    · exact ⟨[], List.nil_prefix, rfl⟩
    · obtain ⟨ys, hys, heq⟩ := ih (count + x.batch.batchLength)
      exact ⟨x :: ys, List.cons_prefix_cons.mpr ⟨rfl, hys⟩, by rw [heq]; rfl⟩

/-- A fetch in the range of a segment returns batches whose records are those from the fetch
offset on, without a gap; below the end there is at least one. -/
theorem Holds.fetch [Crc] {f : SegmentFile} {v : SegmentView} {xs : List Filled} (h : Holds f v xs)
    (hs : ∀ x ∈ xs, x.Searchable) {req : FetchPartition}
    (hb : v.baseOffset ≤ req.fetchOffset.toNat)
    (ht : req.fetchOffset.toNat ≤ endOffset v.baseOffset xs) :
    ∃ ys : List Filled, v.fetch f req = some (ys.map Filled.batch) ∧
      ys.flatMap Filled.recs <+:
        (xs.flatMap Filled.recs).drop (req.fetchOffset.toNat - v.baseOffset) ∧
      (req.fetchOffset.toNat < endOffset v.baseOffset xs →
        ∃ y ∈ ys.head?, y.batch.baseOffset = req.fetchOffset) := by
  obtain ⟨it, hit, hbatches⟩ := h.batchIterFrom ht
  rw [SegmentView.fetch, hit]
  simp only [hbatches]
  rcases Nat.lt_or_ge req.fetchOffset.toNat (endOffset v.baseOffset xs) with hlt | hge
  · obtain ⟨pre, x, post, rfl, hfrom, hbase, hle, hin⟩ := exists_fromOffset h.chained hb hlt
    obtain ⟨y, hslice, hoffset, hrecs⟩ := x.exists_slice (hs x (by simp)) (hbase ▸ hle)
      (hbase ▸ hin)
    obtain ⟨ys, hys, hmore⟩ := fetchMore_spec req.partitionMaxBytes y.batch.batchLength post
    rw [hfrom, List.map_cons]
    simp only [hslice, hmore]
    refine ⟨y :: ys, rfl, ?_, fun _ => ⟨y, rfl, hoffset⟩⟩
    have hdrop : ((pre ++ x :: post).flatMap Filled.recs).drop
        (req.fetchOffset.toNat - v.baseOffset)
        = y.recs ++ post.flatMap Filled.recs := by
      have hpre : (pre.flatMap Filled.recs).length = endOffset v.baseOffset pre - v.baseOffset := by
        rw [endOffset, Nat.add_sub_cancel_left]
      have hbelow : v.baseOffset ≤ endOffset v.baseOffset pre := le_endOffset
      rw [List.flatMap_append, List.flatMap_cons, List.drop_append, hpre,
        List.drop_eq_nil_of_le (by omega), List.nil_append, List.drop_append_of_le_length (by omega),
        hrecs, hbase]
      congr 2
      omega
    obtain ⟨zs, rfl⟩ := hys
    rw [hdrop, List.flatMap_cons, List.flatMap_append]
    exact (List.prefix_append_right_inj _).mpr (List.prefix_append _ _)
  · have hnil : fromOffset req.fetchOffset.toNat xs = [] := by
      rw [← List.append_nil xs]
      exact fromOffset_append h.chained hge
    rw [hnil]
    exact ⟨[], rfl, List.nil_prefix, fun hlt => absurd hlt (Nat.not_lt.mpr hge)⟩

/-- Reading a segment from its start gives the batches that the view reaches. -/
lemma Holds.batchesFrom {f : SegmentFile} {v : SegmentView} {xs : List Filled} (h : Holds f v xs) :
    (v.batchesFrom f 0).batches = (xs.map Filled.batch).map some := by
  obtain ⟨tail, hlog⟩ := h.log
  rw [SegmentView.batchesFrom, ← hlog, h.size_eq]
  exact batches_bytes xs tail

end Musil.Storage
