import Musil.Storage.PartitionLog

/-!
# What the actor keeps

The directory of a partition holds closed segments, each with at least one batch, and the one that
the writer works on. Starting the actor recovers the writer and the views from the directory, an
append adds its batch, and a full segment is closed.
-/

namespace Musil.Storage

open Bytes Proto

def PartitionActorConfig.maxEntries (config : PartitionActorConfig) : ℕ :=
  (config.segmentConfig 0).maxEntries

/-! ### Directories -/

/-- The closed segments start where the one before ends, and none is empty. -/
def Stacked (m : ℕ) (d : Disk) : ℕ → List ℕ → List (List Filled) → Prop
  | _, [], [] => True
  | base, k :: ks, xs :: segs =>
    k = base ∧ (∃ n, Stored m (d.file k) k n xs) ∧ xs ≠ [] ∧ Stacked m d (endOffset base xs) ks segs
  | _, _, _ => False

/-- The directory holds the closed segments `closed` at `ks`, and behind them the segment that the
writer is in step with. -/
structure Keeps (m : ℕ) (d : Disk) (active : LogSegment) (ks : List ℕ)
    (closed : List (List Filled)) (cur : List Filled) : Prop where
  stacked : Stacked m d 0 ks closed
  base_eq : active.segment.baseOffset = endOffset 0 closed.flatten
  mem : ∀ k, k ∈ d.files ↔ k ∈ ks ∨ k = active.segment.baseOffset
  writes : Writes m d active cur
  room : (bytes (closed.flatten ++ cur)).length + d.free < 2 ^ 63

/-- The views reach the closed segments and, with the last one, all that the writer has written. -/
structure Serves (m : ℕ) (d : Disk) (active : LogSegment) (views : List SegmentView)
    (ks : List ℕ) (closed : List (List Filled)) (cur : List Filled) : Prop where
  keeps : Keeps m d active ks closed cur
  shown : ∃ front segs, views = front ++ [active.publish.1] ∧ Laid d 0 front segs ∧
    segs.flatten = closed.flatten
  behind : ∀ v ∈ views, v.baseOffset < active.segment.baseOffset ∨
    v.baseOffset = active.segment.baseOffset ∧ v.indexCount ≤ active.indexCount

section Stacked

variable {m base : ℕ} {d d' : Disk} {ks js : List ℕ} {segs ts : List (List Filled)}

lemma Stacked.length_eq (h : Stacked m d base ks segs) : ks.length = segs.length := by
  induction ks generalizing base segs with
  | nil =>
    cases segs with
    | nil => rfl
    | cons xs segs => exact h.elim
  | cons k ks ih =>
    cases segs with
    | nil => exact h.elim
    | cons xs segs => exact congrArg (· + 1) (ih h.2.2.2)

lemma stacked_append (hl : ks.length = segs.length) : Stacked m d base (ks ++ js) (segs ++ ts) ↔
    Stacked m d base ks segs ∧ Stacked m d (endOffset base segs.flatten) js ts := by
  induction ks generalizing base segs with
  | nil =>
    rw [List.eq_nil_of_length_eq_zero hl.symm]
    simp [Stacked]
  | cons k ks ih =>
    obtain ⟨xs, segs, rfl⟩ := List.exists_cons_of_length_eq_add_one hl.symm
    simp only [List.cons_append, Stacked, ih (Nat.succ.inj hl), List.flatten_cons, endOffset_append,
      and_assoc]

lemma endOffset_lt {xs : List Filled} (h : xs ≠ []) : base < endOffset base xs := by
  obtain ⟨x, xs, rfl⟩ := List.exists_cons_of_ne_nil h
  rw [endOffset_cons]
  have hpos := x.length_pos
  exact (Nat.lt_add_of_pos_right hpos).trans_le le_endOffset

lemma Stacked.base_lt (h : Stacked m d base ks segs) {k : ℕ} (hk : k ∈ ks) :
    base ≤ k ∧ k < endOffset base segs.flatten := by
  induction ks generalizing base segs with
  | nil => exact absurd hk List.not_mem_nil
  | cons j ks ih =>
    cases segs with
    | nil => exact h.elim
    | cons xs segs =>
      rw [List.flatten_cons, endOffset_append]
      rcases List.mem_cons.mp hk with rfl | hmem
      · rw [h.1]
        exact ⟨le_rfl, (endOffset_lt h.2.2.1).trans_le le_endOffset⟩
      · obtain ⟨hlo, hhi⟩ := ih h.2.2.2 hmem
        exact ⟨le_endOffset.trans hlo, hhi⟩

/-- The base offsets of closed segments increase. -/
lemma Stacked.sorted (h : Stacked m d base ks segs) : ks.Pairwise (· < ·) := by
  induction ks generalizing base segs with
  | nil => exact List.Pairwise.nil
  | cons k ks ih =>
    cases segs with
    | nil => exact h.elim
    | cons xs segs =>
      refine List.Pairwise.cons (fun j hj => ?_) (ih h.2.2.2)
      rw [h.1]
      exact (endOffset_lt h.2.2.1).trans_le (h.2.2.2.base_lt hj).1

lemma Stacked.frame (h : Stacked m d base ks segs) (hf : ∀ k ∈ ks, d'.file k = d.file k) :
    Stacked m d' base ks segs := by
  induction ks generalizing base segs with
  | nil =>
    cases segs with
    | nil => trivial
    | cons xs segs => exact h.elim
  | cons k ks ih =>
    cases segs with
    | nil => exact h.elim
    | cons xs segs =>
      rw [List.forall_mem_cons] at hf
      obtain ⟨hk, ⟨n, hstored⟩, hne, hrest⟩ := h
      exact ⟨hk, ⟨n, hf.1.symm ▸ hstored⟩, hne, ih hrest hf.2⟩

lemma Stacked.agrees (h : Stacked m d base ks segs) (hd : d.Agrees d') :
    Stacked m d' base ks segs :=
  h.frame fun k _ => congrFun hd.file k

end Stacked

/-! ### Publishing -/

section Serves

variable {m : ℕ} {d d' : Disk} {active active' : LogSegment} {views : List SegmentView}
  {ks : List ℕ} {closed : List (List Filled)} {cur : List Filled} {st : PartitionState}
  {config : PartitionActorConfig}

lemma Writes.publish {xs : List Filled} (h : Writes m d active xs) :
    Writes m d active.publish.2 xs :=
  ⟨h.stored, h.size_eq, h.writePos, h.due⟩

lemma Serves.shows (h : Serves m d active views ks closed cur) (hseg : st.segments = views)
    (hleo : st.logEndOffset = endOffset 0 (closed.flatten ++ cur)) :
    Shows d st (closed.flatten ++ cur) := by
  obtain ⟨front, segs, hviews, hlaid, hflat⟩ := h.shown
  refine ⟨⟨segs ++ [cur], ?_, by simp [hflat]⟩, by simp [hseg, hviews], hleo⟩
  rw [hseg, hviews, laid_append hlaid.length_eq, hflat]
  exact ⟨hlaid, h.keeps.base_eq, h.keeps.base_eq ▸ h.keeps.writes.holds, trivial⟩

lemma Serves.isBehind (h : Serves m d active views ks closed cur) (hseg : st.segments = views) :
    Behind active st := by
  intro v hv
  exact h.behind v (hseg ▸ hv)

/-- The offsets that are in use fit into 64 bits, since every record takes a byte of the disk. -/
lemma Keeps.leo_lt (h : Keeps m d active ks closed cur) :
    endOffset 0 (closed.flatten ++ cur) < 2 ^ 63 := by
  have hroom := h.room
  have hle : ((closed.flatten ++ cur).flatMap Filled.recs).length
      ≤ (bytes (closed.flatten ++ cur)).length := length_recs_le
  rw [endOffset]
  omega

/-- Whatever a state shows, it still shows. -/
def Preserves (d : Disk) (active : LogSegment) (d' : Disk) (active' : LogSegment) : Prop :=
  ∀ st xs, Shows d st xs → Behind active st → Shows d' st xs ∧ Behind active' st

lemma Preserves.refl (d : Disk) (active : LogSegment) : Preserves d active d active :=
  fun _ _ h hb => ⟨h, hb⟩

lemma Preserves.trans {d₁ d₂ d₃ : Disk} {s₁ s₂ s₃ : LogSegment} (h : Preserves d₁ s₁ d₂ s₂)
    (h' : Preserves d₂ s₂ d₃ s₃) : Preserves d₁ s₁ d₃ s₃ :=
  fun st xs hs hb => h' st xs (h st xs hs hb).1 (h st xs hs hb).2

/-! ### Rolling over -/

lemma Keeps.file_eq_nil (h : Keeps m d active ks closed cur) {k : ℕ}
    (hk : active.segment.baseOffset < k) : (d.file k).log = [] := by
  have hnot : k ∉ d.files := by
    rw [h.mem]
    rintro (hmem | rfl)
    · have hlt := (h.stacked.base_lt hmem).2
      rw [← h.base_eq] at hlt
      omega
    · exact lt_irrefl _ hk
  rw [Disk.file_of_notMem hnot]

lemma Keeps.base_lt (h : Keeps m d active ks closed cur) (hne : cur ≠ []) :
    active.segment.baseOffset < endOffset 0 (closed.flatten ++ cur) := by
  rw [endOffset_append, h.base_eq]
  exact endOffset_lt hne

/-- A new segment leaves the files of the others alone. -/
lemma Keeps.file_openSegment (h : Keeps m d active ks closed cur) {opts : SegmentConfig}
    (hlt : active.segment.baseOffset < opts.baseOffset) {k : ℕ} (hk : k ≠ opts.baseOffset) :
    (LogSegment.openSegment opts d).2.file k = d.file k := by
  obtain ⟨-, -, hdisk, -⟩ := openSegment_fresh opts d (h.file_eq_nil hlt)
  rw [hdisk, Disk.file_put_ne _ _ _ hk]

/-- Closing a segment with batches and beginning the next one behind it. -/
lemma Keeps.close {opts : SegmentConfig} (h : Keeps opts.maxEntries d active ks closed cur)
    (hbase : opts.baseOffset = endOffset 0 (closed.flatten ++ cur)) (hne : cur ≠ []) :
    Keeps opts.maxEntries (LogSegment.openSegment opts d).2
      (LogSegment.openSegment opts d).1.publish.2 (ks ++ [active.segment.baseOffset])
      (closed ++ [cur]) [] := by
  have hlt : active.segment.baseOffset < opts.baseOffset := hbase ▸ h.base_lt hne
  have hflat : (closed ++ [cur]).flatten = closed.flatten ++ cur := by simp
  obtain ⟨hwrites, -, hdisk, -⟩ := openSegment_fresh opts d (h.file_eq_nil hlt)
  refine ⟨?_, ?_, fun k => ?_, hwrites.publish, ?_⟩
  · rw [stacked_append h.stacked.length_eq]
    refine ⟨h.stacked.frame fun k hk => h.file_openSegment hlt ?_, h.base_eq,
      ⟨active.indexCount, ?_⟩, hne, trivial⟩
    · have hlow := (h.stacked.base_lt hk).2
      rw [← h.base_eq] at hlow
      exact (hlow.trans hlt).ne
    · rw [h.file_openSegment hlt hlt.ne]
      exact h.writes.stored
  · rw [hflat, ← hbase]
    rfl
  · rw [hdisk, Disk.mem_put, h.mem, List.mem_append, List.mem_singleton]
    exact ⟨fun hk => hk.symm, fun hk => hk.symm⟩
  · rw [hflat, List.append_nil, hdisk]
    exact h.room

/-- Every view that is not ahead of the writer is before the next segment. -/
lemma Keeps.before_next (h : Keeps m d active ks closed cur) {opts : SegmentConfig}
    (hbase : opts.baseOffset = endOffset 0 (closed.flatten ++ cur)) (hne : cur ≠ [])
    {vs : List SegmentView} (hbehind : ∀ v ∈ vs, v.baseOffset < active.segment.baseOffset ∨
      v.baseOffset = active.segment.baseOffset ∧ v.indexCount ≤ active.indexCount) :
    ∀ v ∈ vs, v.baseOffset < opts.baseOffset := by
  have hlt : active.segment.baseOffset < opts.baseOffset := hbase ▸ h.base_lt hne
  intro v hv
  rcases hbehind v hv with hlt' | ⟨heq, -⟩
  · exact hlt'.trans hlt
  · exact heq ▸ hlt

/-- What has been published stays readable when the next segment is begun. -/
lemma Serves.close (opts : SegmentConfig) (h : Serves opts.maxEntries d active views ks closed cur)
    (hbase : opts.baseOffset = endOffset 0 (closed.flatten ++ cur)) (hne : cur ≠ []) :
    Serves opts.maxEntries (LogSegment.openSegment opts d).2
        (LogSegment.openSegment opts d).1.publish.2
        (views ++ [(LogSegment.openSegment opts d).1.publish.1])
        (ks ++ [active.segment.baseOffset]) (closed ++ [cur]) [] ∧
      AtEnd (LogSegment.openSegment opts d).2 (LogSegment.openSegment opts d).1.publish.2 ∧
      Preserves d active (LogSegment.openSegment opts d).2
        (LogSegment.openSegment opts d).1.publish.2 := by
  have hlt : active.segment.baseOffset < opts.baseOffset := hbase ▸ h.keeps.base_lt hne
  obtain ⟨-, hend, -, -⟩ := openSegment_fresh opts d (h.keeps.file_eq_nil hlt)
  have hfile {v : SegmentView} (hv : v.baseOffset < opts.baseOffset) :
      (LogSegment.openSegment opts d).2.file v.baseOffset = d.file v.baseOffset :=
    h.keeps.file_openSegment hlt hv.ne
  have hbefore := h.keeps.before_next hbase hne h.behind
  refine ⟨⟨h.keeps.close hbase hne, ?_, fun v hv => ?_⟩, hend, fun st xs hshows hb => ?_⟩
  · obtain ⟨front, segs, hviews, hlaid, hsegs⟩ := h.shown
    refine ⟨views, segs ++ [cur], rfl, ?_, by simp [hsegs]⟩
    rw [hviews, laid_append hlaid.length_eq, hsegs]
    refine ⟨hlaid.frame fun v hv xs hholds => ?_, h.keeps.base_eq, ?_, trivial⟩
    · rwa [hfile (hbefore v (hviews ▸ List.mem_append_left _ hv))]
    · rw [← h.keeps.base_eq, h.keeps.file_openSegment hlt hlt.ne]
      exact h.keeps.writes.holds
  · rcases List.mem_append.mp hv with hold | hnew
    · exact .inl (hbefore v hold)
    · rw [List.mem_singleton.mp hnew]
      exact .inr ⟨rfl, le_rfl⟩
  · have hbeforeSt := h.keeps.before_next hbase hne hb
    exact ⟨hshows.of_file_eq fun v hv => hfile (hbeforeSt v hv),
      fun v hv => .inl (hbeforeSt v hv)⟩

/-- Opening the active segment again while it is empty adds a view of it. -/
lemma Serves.reopen (opts : SegmentConfig) (h : Serves opts.maxEntries d active views ks closed [])
    (hbase : opts.baseOffset = endOffset 0 closed.flatten) :
    Serves opts.maxEntries (LogSegment.openSegment opts d).2
        (LogSegment.openSegment opts d).1.publish.2
        (views ++ [(LogSegment.openSegment opts d).1.publish.1]) ks closed [] ∧
      AtEnd (LogSegment.openSegment opts d).2 (LogSegment.openSegment opts d).1.publish.2 ∧
      Preserves d active (LogSegment.openSegment opts d).2
        (LogSegment.openSegment opts d).1.publish.2 := by
  have hsame : opts.baseOffset = active.segment.baseOffset := hbase.trans h.keeps.base_eq.symm
  have hstored := h.keeps.writes.stored
  rw [← hsame] at hstored
  obtain ⟨hwrites, hagrees, hcount, hend⟩ :=
    hstored.openSegment opts ((h.keeps.mem _).mpr (.inr hsame))
  have hbehind : ∀ v : SegmentView, (v.baseOffset < active.segment.baseOffset ∨
      v.baseOffset = active.segment.baseOffset ∧ v.indexCount ≤ active.indexCount) →
      v.baseOffset < opts.baseOffset ∨ v.baseOffset = opts.baseOffset ∧
        v.indexCount ≤ (LogSegment.openSegment opts d).1.indexCount := by
    intro v hv
    rwa [hcount, hsame]
  refine ⟨⟨⟨h.keeps.stacked.agrees hagrees, hbase, ?_, hwrites.publish, ?_⟩, ?_, ?_⟩, hend rfl, ?_⟩
  · intro k
    rw [hagrees.mem, h.keeps.mem, ← hsame]
    rfl
  · rw [hagrees.free]
    exact h.keeps.room
  · obtain ⟨front, segs, hviews, hlaid, hsegs⟩ := h.shown
    refine ⟨views, segs ++ [[]], rfl, ?_, by simp [hsegs]⟩
    rw [hviews, laid_append hlaid.length_eq, hsegs]
    refine ⟨hlaid.frame fun v _ xs hholds => ?_, h.keeps.base_eq, ?_, trivial⟩
    · rwa [hagrees.file]
    · rw [hagrees.file, ← h.keeps.base_eq]
      exact h.keeps.writes.holds
  · intro v hv
    rcases List.mem_append.mp hv with hold | hnew
    · exact hbehind v (h.behind v hold)
    · rw [List.mem_singleton.mp hnew]
      exact .inr ⟨rfl, le_rfl⟩
  · intro st xs hshows hb
    exact ⟨hshows.of_file_eq fun v _ => congrFun hagrees.file _, fun v hv => hbehind v (hb v hv)⟩

/-- A new segment is begun at the log end when the active one is full. -/
theorem Serves.rollOver {views' : List SegmentView} {leo : ℕ}
    (h : Serves config.maxEntries d active views ks closed cur)
    (hleo : leo = endOffset 0 (closed.flatten ++ cur))
    (hroll : PartitionActor.rollOver config leo views active d = (views', active', d')) :
    (∃ ks' closed' cur', closed'.flatten ++ cur' = closed.flatten ++ cur ∧
      Serves config.maxEntries d' active' views' ks' closed' cur') ∧
    (AtEnd d active → AtEnd d' active') ∧ Preserves d active d' active' := by
  rw [PartitionActor.rollOver] at hroll
  split_ifs at hroll with hfull
  · by_cases hne : cur = []
    · subst hne
      rw [List.append_nil] at hleo
      obtain ⟨hserves, hend, hpres⟩ := h.reopen (config.segmentConfig leo) hleo
      cases hroll
      exact ⟨⟨_, _, _, rfl, hserves⟩, fun _ => hend, hpres⟩
    · obtain ⟨hserves, hend, hpres⟩ := h.close (config.segmentConfig leo) hleo hne
      cases hroll
      exact ⟨⟨_, _, _, by simp, hserves⟩, fun _ => hend, hpres⟩
  · cases hroll
    exact ⟨⟨ks, closed, cur, rfl, h⟩, id, .refl d active⟩

/-! ### Appending -/

lemma Preserves.of_extends (hext : Extends d d' active.segment.baseOffset active.indexCount)
    (hseg : active'.segment.baseOffset = active.segment.baseOffset)
    (hcount : active.indexCount ≤ active'.indexCount) : Preserves d active d' active' := by
  intro st xs hshows hb
  refine ⟨hshows.extends hb hext, fun v hv => ?_⟩
  rw [hseg]
  exact (hb v hv).imp_right fun ⟨heq, hle⟩ => ⟨heq, hle.trans hcount⟩

/-- A batch more in the active segment. -/
lemma Serves.extend {x : Filled} (h : Serves m d active views ks closed cur)
    (hw : Writes m d' active' (cur ++ [x]))
    (hext : Extends d d' active.segment.baseOffset active.indexCount)
    (hfree : d'.free + x.batch.encode.length = d.free) (hseg : active'.segment = active.segment)
    (hcount : active.indexCount ≤ active'.indexCount) :
    Serves m d' active'.publish.2 (views.dropLast ++ [active'.publish.1]) ks closed
      (cur ++ [x]) := by
  obtain ⟨front, segs, hviews, hlaid, hsegs⟩ := h.shown
  have hbase : active'.segment.baseOffset = active.segment.baseOffset := congrArg _ hseg
  have hdrop : views.dropLast = front := by rw [hviews, List.dropLast_concat]
  have hfront : ∀ v ∈ front, v.baseOffset < active.segment.baseOffset ∨
      v.baseOffset = active.segment.baseOffset ∧ v.indexCount ≤ active.indexCount := by
    intro v hv
    exact h.behind v (hviews ▸ List.mem_append_left _ hv)
  rw [hdrop]
  refine ⟨⟨?_, ?_, ?_, hw.publish, ?_⟩, ⟨front, segs, rfl, ?_, hsegs⟩, ?_⟩
  · refine h.keeps.stacked.frame fun k hk => hext.other k ?_
    rw [h.keeps.base_eq]
    exact (h.keeps.stacked.base_lt hk).2.ne
  · exact hbase.trans h.keeps.base_eq
  · intro k
    rw [hext.mem, h.keeps.mem, ← hbase]
    rfl
  · have hroom := h.keeps.room
    rw [← List.append_assoc, bytes_append, List.length_append]
    have hlen : (bytes [x]).length = x.batch.encode.length := by simp [bytes]
    omega
  · refine hlaid.frame fun v hv xs hholds => ?_
    rcases hfront v hv with hlt | ⟨heq, hle⟩
    · rwa [hext.other _ hlt.ne]
    · rw [heq] at hholds ⊢
      exact hholds.frame hext.log (hext.index _ hle) hext.length.ge
  · intro v hv
    rcases List.mem_append.mp hv with hold | hnew
    · rw [show active'.publish.2.segment.baseOffset = _ from hbase]
      exact (hfront v hold).imp_right (And.imp_right fun hle => hle.trans hcount)
    · rw [List.mem_singleton.mp hnew]
      exact .inr ⟨rfl, le_rfl⟩

end Serves

/-- The actor runs, and the partition holds the batches `xs`. -/
structure Running (p : Partition) (a : PartitionActor) (xs : List Filled) : Prop where
  actor : p.actor = some a
  leo_eq : p.state.logEndOffset = endOffset 0 xs
  serves : ∃ ks closed cur, closed.flatten ++ cur = xs ∧
    Serves a.config.maxEntries p.disk a.active p.state.segments ks closed cur

section Running

variable {p p' : Partition} {a : PartitionActor} {xs : List Filled} {x : Filled} {acks : Acks}
  {done : ℕ} {out : List Reply}

lemma Running.shows (h : Running p a xs) : Shows p.disk p.state xs := by
  obtain ⟨ks, closed, cur, rfl, hserves⟩ := h.serves
  exact hserves.shows rfl h.leo_eq

lemma Running.isBehind (h : Running p a xs) : Behind a.active p.state := by
  obtain ⟨ks, closed, cur, rfl, hserves⟩ := h.serves
  exact hserves.isBehind rfl

lemma Running.leo_lt (h : Running p a xs) : p.state.logEndOffset < 2 ^ 63 := by
  obtain ⟨ks, closed, cur, rfl, hserves⟩ := h.serves
  exact h.leo_eq ▸ hserves.keeps.leo_lt

/-- The batch as it is stored. -/
def stored (st : PartitionState) (x : Filled) : Filled :=
  x.rebase (UInt64.ofNat st.logEndOffset)

/-- An append that is written behind the others adds its batch; one that does not fit on the disk
ends the actor and leaves everything readable. -/
theorem Running.append (h : Running p a xs) (he : AtEnd p.disk a.active)
    (hp : a.handleAppend p.disk p.state x.batch acks done = (p', out)) :
    (p'.actor = none ∧ p'.state = p.state ∧ out = [] ∧ ∀ st ys, Shows p.disk st ys →
      Behind a.active st → Shows p'.disk st ys) ∨
    ∃ a', Running p' a' (xs ++ [stored p.state x]) ∧ a'.config = a.config ∧
      AtEnd p'.disk a'.active ∧ Preserves p.disk a.active p'.disk a'.active ∧
      out = if acks = .all then [] else [.appended done (a.response p.state.logEndOffset)] := by
  have hleo := h.leo_lt
  obtain ⟨ks, closed, cur, rfl, hserves⟩ := h.serves
  have hmem : a.active.segment.baseOffset ∈ p.disk.files := (hserves.keeps.mem _).mpr (.inr rfl)
  have hroom := hserves.keeps.room
  rw [bytes_append, List.length_append] at hroom
  have hoffset : (stored p.state x).batch.baseOffset.toNat = p.state.logEndOffset :=
    UInt64.toNat_ofNat_of_lt' (hleo.trans (by decide))
  rcases Nat.lt_or_ge p.disk.free (stored p.state x).batch.encode.length with hfull | hfits
  · obtain ⟨d', happend, hext⟩ := he.appendBatch_none hmem hfull
    rw [PartitionActor.handleAppend_of_none _ _ happend] at hp
    cases hp
    exact .inl ⟨rfl, rfl, rfl, fun st ys hshows hb => hshows.extends hb hext⟩
  · have hplace : (stored p.state x).batch.baseOffset.toNat
        = endOffset a.active.segment.baseOffset cur := by
      rw [hoffset, h.leo_eq, endOffset_append, hserves.keeps.base_eq]
    obtain ⟨seg', d', happend, hwrites, hend, hext, hfree, hseg, hcount⟩ :=
      hserves.keeps.writes.appendBatch he (Nat.succ_pos _) hmem hplace (by omega) hfits
    have hextend := hserves.extend hwrites hext hfree hseg hcount
    have hleo' : p.state.logEndOffset + x.batch.recordsCount.toNat
        = endOffset 0 (closed.flatten ++ (cur ++ [stored p.state x])) := by
      rw [← List.append_assoc, endOffset_append, ← h.leo_eq, endOffset_cons, endOffset_nil,
        x.count_eq]
      rfl
    rw [PartitionActor.handleAppend_of_some _ _ happend] at hp
    obtain ⟨hkeep, hendRoll, hpres⟩ := hextend.rollOver hleo' rfl
    cases hp
    obtain ⟨ks', closed', cur', hflat, hserves'⟩ := hkeep
    refine .inr ⟨_, ⟨rfl, ?_, ks', closed', cur', ?_, hserves'⟩, rfl, hendRoll hend, ?_, rfl⟩
    · rw [List.append_assoc]
      exact hleo'
    · rw [hflat, List.append_assoc]
    · have hbase : seg'.segment.baseOffset = a.active.segment.baseOffset :=
        congrArg SegmentView.baseOffset hseg
      exact Preserves.trans (.of_extends hext hbase hcount) hpres

end Running

end Musil.Storage
