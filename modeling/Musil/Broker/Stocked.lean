import Musil.Broker.Stock
import Musil.Broker.Restart

/-!
# A broker and what it holds

A broker that was started on empty directories holds nothing. Whatever it is asked for then, its
partitions keep what they hold and get the batches of producers, and new topics are added beside
them.
-/

namespace Musil.Broker

open Network Proto Threaded Consumer
open Storage (Partition PartitionActor PartitionCommand PartitionState Reply Running Shows AtEnd
  stored)

/-! ### New topics -/

/-- An empty directory with room for a log. -/
def Clean (d : Storage.Disk) : Prop :=
  ∃ free < 2 ^ 63, d = ⟨free, ∅⟩

namespace Host

variable {w : Host} {n : ℕ} {dir : Directory} {p : Partition} {ks : List (Directory × ℕ)}

/-- A new partition leaves those in other directories alone. -/
lemma Owned.partition_add {k : Directory × ℕ} (h : Owned ks w) (hk : k ∈ ks)
    (hnew : dir ∉ ks.map Prod.fst) : (w.add dir p).partition k.2 = w.partition k.2 := by
  obtain ⟨c, hc, hdir⟩ := h.known k hk
  have hcell : (w.add dir p).cells[k.2]? = some c := by
    rw [Host.add, List.getElem?_append_left (h.lt_length hk)]
    exact hc
  have hne : c.dir ≠ dir := by
    rw [hdir]
    rintro rfl
    exact hnew (List.mem_map_of_mem hk)
  have hdirs : (w.add dir p).dirs c.dir = w.dirs c.dir := Function.update_of_ne hne _ _
  rw [partition, partition, hcell, hc, Option.map_some, Option.map_some, hdirs]

lemma partition_release {kept : List ℕ} (hn : n ∈ kept) :
    (w.release kept).partition n = w.partition n := by
  rw [partition, partition, release, List.getElem?_mapIdx, Option.map_map]
  congr 1
  funext c
  rw [Function.comp_apply, if_pos hn]

end Host

section Create

variable {image : MetadataImage} {path : String} {ms : List (Directory × ℕ)}
  {Q : TopicPartition → Record → Prop} {logs : ℕ → List Filled}

/-- A partition that is started in an empty directory holds nothing. -/
lemma stocks_of_start {config : PartitionConfig} {w : Host} {p : Partition}
    (hstart : PartitionHandle.start config w = some p) (hclean : Clean (w.dirs config.directory)) :
    Stocks p [] := by
  rw [PartitionHandle.start] at hstart
  split_ifs at hstart
  obtain ⟨free, hfree, hdisk⟩ := hclean
  obtain ⟨p', a, hnew, hrunning, -, hend⟩ := Running.new config.actorConfig config.replicas hfree
  rw [hdisk, hnew] at hstart
  cases hstart
  exact .of_running hrunning hend fun _ hx => absurd hx List.not_mem_nil

lemma Host.Stocked.add {w : Host} {key : TopicPartition} (id : UInt32) {p : Partition}
    (hw : w.Stocked (image.owners path) ms (image.good Q) logs)
    (hfree : key.directory path ∉ (image.owners path ++ ms).map Prod.fst) (hp : Stocks p []) :
    (w.add (key.directory path) p).Stocked ((image.insert key ⟨id, w.cells.length⟩).owners path) ms
      ((image.insert key ⟨id, w.cells.length⟩).good Q) (Function.update logs w.cells.length []) := by
  have hkey : key ∉ image.keys := MetadataImage.notMem_keys_of_free hfree
  -- the numbers of the actors that there were are below the new one
  have hlt : ∀ k ∈ image.owners path, k.2 < w.cells.length :=
    fun k hk => hw.owned.lt_length (List.mem_append_left _ hk)
  rw [MetadataImage.owners_insert hkey]
  refine ⟨hw.owned.add hfree, ?_, ?_⟩
  · rw [List.forall_mem_cons]
    refine ⟨⟨p, w.partition_add _ p, ?_⟩, fun k hk => ?_⟩
    · rw [Function.update_self]
      exact hp
    · rw [hw.owned.partition_add (List.mem_append_left _ hk) hfree,
        Function.update_of_ne (hlt k hk).ne]
      exact hw.stocks k hk
  · rw [List.forall_mem_cons]
    refine ⟨?_, fun k hk r hr => ?_⟩
    · rw [Function.update_self]
      exact fun _ hr => absurd hr List.not_mem_nil
    · rw [Function.update_of_ne (hlt k hk).ne] at hr
      intro e he hactor
      rw [MetadataImage.insert_entries hkey, List.mem_cons] at he
      rcases he with rfl | he
      · exact absurd hactor (hlt k hk).ne'
      · exact hw.good k hk r hr e he hactor

/-- New partitions hold nothing, and the others are left as they are, also when a later one cannot
be opened. -/
lemma createPartitions_stocked (ts : List (TopicRecord × PartitionRecord)) {w : Host}
    (hw : w.Stocked (image.owners path) ms (image.good Q) logs)
    (hids : ∀ e ∈ image.partitions.entries, e.2.id = e.1.partitionId.toUInt32)
    (hclean : ∀ dir, dir ∉ (image.owners path ++ ms).map Prod.fst → Clean (w.dirs dir))
    (hnodup : ((ts.map MetadataImage.key).map (TopicPartition.directory path)).Nodup)
    (hfree : ∀ q ∈ ts.map MetadataImage.key,
      q.directory path ∉ (image.owners path ++ ms).map Prod.fst) :
    (∀ k ∈ image.owners path,
      ((image.createPartitions path ts).exec w).2.partition k.2 = w.partition k.2) ∧
    ∀ next w', (image.createPartitions path ts).exec w = (some next, w') →
      (∀ e ∈ next.partitions.entries, e.2.id = e.1.partitionId.toUInt32) ∧
      (∀ dir, dir ∉ (next.owners path ++ ms).map Prod.fst → Clean (w'.dirs dir)) ∧
      ∃ logs', (∀ k ∈ image.owners path, logs k.2 <+: logs' k.2) ∧
        w'.Stocked (next.owners path) ms (next.good Q) logs' := by
  induction ts generalizing image w logs with
  | nil =>
    refine ⟨fun _ _ => rfl, fun next w' hrun => ?_⟩
    cases hrun
    exact ⟨hids, hclean, logs, fun _ _ => List.prefix_rfl, hw⟩
  | cons t ts ih =>
    simp only [List.map_cons, List.nodup_cons, List.forall_mem_cons] at hnodup hfree
    obtain ⟨hnot, hnodup⟩ := hnodup
    obtain ⟨hfirst, hfree⟩ := hfree
    rw [MetadataImage.createPartitions, exec_bind, spawn_exec]
    cases hstart : PartitionHandle.start (MetadataImage.config path t.1 t.2) w with
    | none =>
      refine ⟨fun _ _ => rfl, fun next w' hrun => ?_⟩
      cases hrun
    | some p =>
      have hstocks : Stocks p [] := stocks_of_start hstart (hclean _ hfirst)
      have hkey : MetadataImage.key t ∉ image.keys := MetadataImage.notMem_keys_of_free hfirst
      have hw₁ := hw.add t.2.partitionId.toUInt32 hfirst hstocks
      set handle : PartitionHandle := ⟨t.2.partitionId.toUInt32, w.cells.length⟩
      have howners : (image.insert (MetadataImage.key t) handle).owners path =
          ((MetadataImage.key t).directory path, handle.actor) :: image.owners path :=
        MetadataImage.owners_insert hkey
      have hids₁ : ∀ e ∈ (image.insert (MetadataImage.key t) handle).partitions.entries,
          e.2.id = e.1.partitionId.toUInt32 := by
        rw [MetadataImage.insert_entries hkey, List.forall_mem_cons]
        exact ⟨rfl, hids⟩
      have hclean₁ : ∀ dir, dir ∉ ((image.insert (MetadataImage.key t) handle).owners path
          ++ ms).map Prod.fst → Clean ((w.add ((MetadataImage.key t).directory path) p).dirs dir) := by
        intro dir hdir
        obtain ⟨hne, hdir⟩ := (MetadataImage.notMem_owners_insert hkey).mp hdir
        have hsame : (w.add ((MetadataImage.key t).directory path) p).dirs dir = w.dirs dir :=
          Function.update_of_ne hne _ _
        rw [hsame]
        exact hclean dir hdir
      have hfree₁ : ∀ q ∈ ts.map MetadataImage.key, q.directory path ∉
          ((image.insert (MetadataImage.key t) handle).owners path ++ ms).map Prod.fst := by
        intro q hq
        refine (MetadataImage.notMem_owners_insert hkey).mpr ⟨fun heq => hnot ?_, hfree q hq⟩
        exact heq ▸ List.mem_map_of_mem hq
      obtain ⟨hkept, hnext⟩ := ih hw₁ hids₁ hclean₁ hnodup hfree₁
      refine ⟨fun k hk => ?_, fun next w' hrun => ?_⟩
      · have hmem : k ∈ (image.insert (MetadataImage.key t) handle).owners path :=
          howners ▸ List.mem_cons_of_mem _ hk
        exact (hkept k hmem).trans (hw.owned.partition_add (List.mem_append_left _ hk) hfirst)
      · obtain ⟨hids', hclean', logs', hext, hstocked⟩ := hnext next w' hrun
        refine ⟨hids', hclean', logs', fun k hk => ?_, hstocked⟩
        have hlast := hext k (howners ▸ List.mem_cons_of_mem _ hk)
        rwa [Function.update_of_ne (hw.owned.lt_length (List.mem_append_left _ hk)).ne] at hlast

end Create

/-! ### The broker -/

namespace BrokerState

/-- The metadata actor owns the directory of its log. -/
def metadataOwner (path : String) (b : BrokerState) : List (Directory × ℕ) :=
  b.metadata.toList.map fun actor => (metadataPartition.directory path, actor.handle.actor)

/-- The partitions of the image hold the batches in `logs`, with records that `Q` allows; while the
metadata actor runs, all other directories are empty. -/
structure Stocked (path : String) (Q : TopicPartition → Record → Prop) (logs : ℕ → List Filled)
    (b : BrokerState) : Prop where
  stocked : b.host.Stocked (b.image.owners path) (b.metadataOwner path) (b.image.good Q) logs
  path_eq : ∀ actor ∈ b.metadata, actor.path = path
  ids : ∀ e ∈ b.image.partitions.entries, e.2.id = e.1.partitionId.toUInt32
  clean : b.metadata.isSome → ∀ dir, dir ∉ (b.owners path).map Prod.fst → Clean (b.host.dirs dir)

section Stocked

variable {path : String} {Q : TopicPartition → Record → Prop} {logs : ℕ → List Filled}
  {b : BrokerState} {w : Host}

lemma Stocked.known (h : b.Stocked path Q logs) : Known path b :=
  ⟨h.stocked.owned, h.path_eq⟩

lemma Stocked.actors_nodup (h : b.Stocked path Q logs) : b.image.actors.Nodup :=
  h.stocked.owned.actors_nodup

/-- The host has changed as a request changes it. -/
lemma Stocked.grow (h : b.Stocked path Q logs)
    (hw : b.host.Grows (b.image.owners path) (b.metadataOwner path) (b.image.good Q) w) :
    ∃ logs', (∀ k ∈ b.image.owners path, logs k.2 <+: logs' k.2) ∧
      ({ b with host := w } : BrokerState).Stocked path Q logs' := by
  obtain ⟨hdirs, logs', hext, hstocked⟩ := hw logs h.stocked
  refine ⟨logs', hext, hstocked, h.path_eq, h.ids, fun hactor dir hdir => ?_⟩
  rw [hdirs dir hdir]
  exact h.clean hactor dir hdir

lemma stocks_release {kept : List ℕ} {image : MetadataImage}
    (hkept : ∀ n ∈ image.actors, n ∈ kept)
    (hw : ∀ k ∈ image.owners path, ∃ p, w.partition k.2 = some p ∧ Stocks p (logs k.2)) :
    ∀ k ∈ image.owners path, ∃ p, (w.release kept).partition k.2 = some p ∧ Stocks p (logs k.2) := by
  intro k hk
  have hmem : k.2 ∈ image.actors := by
    have hactors : (image.owners path).map Prod.snd = image.actors := MetadataImage.map_snd_owners
    rw [← hactors]
    exact List.mem_map_of_mem hk
  rw [Host.partition_release (hkept _ hmem)]
  exact hw k hk

variable [Crc] (clock : Host → UInt64) {elapsed : UInt32} {req : CreateTopicRequest}
  {actor : MetadataActor} {ks ms : List (Directory × ℕ)} {good : ℕ → Record → Prop} {dir : Directory}

lemma grows_persist (hk : (dir, actor.handle.actor) ∈ ms) (rs : List MetadataRecord) (w : Host) :
    w.Grows ks ms good ((actor.persist clock rs).exec w).2 := by
  induction rs generalizing w with
  | nil => exact .refl w
  | cons r rs ih =>
    refine exec_bind_related (fun _ _ _ => .trans) ?_ fun _ w₁ _ => ih w₁
    rw [MetadataActor.append, exec_get_bind]
    refine exec_bind_related (fun _ _ _ => .trans) ?_ fun _ w₁ _ => .refl w₁
    refine exec_bind_related (fun _ _ _ => .trans) (grows_send_other hk _ w) fun _ w₁ _ => ?_
    refine exec_bind_related (fun _ _ _ => .trans) (.refl w₁) fun _ w₂ _ => ?_
    exact exec_bind_related (fun _ _ _ => .trans) (.refl w₂) fun _ w₃ _ => .refl w₃

/-- The actor panics in the middle of a request. -/
lemma Stocked.create_of_panic (h : b.Stocked path Q logs)
    (hfresh : b.FreshEvent path (.create clock elapsed req)) (hactor : b.metadata = some actor)
    (hrun : (actor.create clock b.image elapsed req).exec b.host = (none, w))
    {logs' : ℕ → List Filled}
    (hstocks : ∀ k ∈ b.image.owners path, ∃ p, w.partition k.2 = some p ∧ Stocks p (logs' k.2))
    (hgood : ∀ k ∈ b.image.owners path, ∀ r ∈ (logs' k.2).flatMap Filled.recs,
      b.image.good Q k.2 r) :
    (b.step path (.create clock elapsed req)).Stocked path Q logs' := by
  have hknown : Known path (b.step path (.create clock elapsed req)) :=
    (h.known.create_known hfresh).1
  rw [step_create_of_panic hactor hrun] at hknown ⊢
  exact ⟨⟨hknown.owned, stocks_release (fun _ hn => hn) hstocks, hgood⟩, hknown.path_eq, h.ids,
    fun hnone => absurd hnone Bool.false_ne_true⟩

/-- A request for new topics in directories of their own, whether it is answered or the actor
panics. -/
lemma Stocked.create (h : b.Stocked path Q logs)
    (hfresh : b.FreshEvent path (.create clock elapsed req)) :
    ∃ logs', (∀ k ∈ b.image.owners path, logs k.2 <+: logs' k.2) ∧
      (b.step path (.create clock elapsed req)).Stocked path Q logs' := by
  cases hactor : b.metadata with
  | none =>
    rw [step_create_of_ended hactor]
    exact ⟨logs, fun _ _ => List.prefix_rfl, h⟩
  | some actor =>
    have hfresh' : Fresh path b.image ((requested req).map MetadataImage.key) :=
      hfresh (Option.isSome_of_mem hactor)
    have hown : (metadataPartition.directory path, actor.handle.actor) ∈ b.metadataOwner path := by
      rw [metadataOwner, hactor]
      exact List.mem_singleton_self _
    obtain ⟨hdirs, logs₁, hext₁, hw₁⟩ := grows_persist clock hown
      (req.topics.flatMap MetadataActor.records) b.host logs h.stocked
    rcases hpersist : (actor.persist clock (req.topics.flatMap MetadataActor.records)).exec b.host
      with ⟨_ | u, w₁⟩
    · rw [hpersist] at hw₁
      have hrun : (actor.create clock b.image elapsed req).exec b.host = (none, w₁) := by
        rw [MetadataActor.create, exec_bind, hpersist]
      exact ⟨logs₁, hext₁, h.create_of_panic clock hfresh hactor hrun hw₁.stocks hw₁.good⟩
    · rw [hpersist] at hw₁ hdirs
      have hclean₁ : ∀ dir, dir ∉ (b.owners path).map Prod.fst → Clean (w₁.dirs dir) := by
        intro dir hdir
        rw [hdirs dir hdir]
        exact h.clean (Option.isSome_of_mem hactor) dir hdir
      obtain ⟨hkept, hnext⟩ := createPartitions_stocked (requested req) hw₁ h.ids hclean₁
        hfresh'.nodup (free_of_fresh hfresh')
      have hstocks₁ : ∀ k ∈ b.image.owners path, ∃ p,
          ((b.image.createPartitions path (requested req)).exec w₁).2.partition k.2 = some p ∧
            Stocks p (logs₁ k.2) := by
        intro k hk
        rw [hkept k hk]
        exact hw₁.stocks k hk
      rcases hcreate : (b.image.createPartitions path (requested req)).exec w₁ with ⟨_ | next, w₂⟩
      · rw [hcreate] at hstocks₁
        have hrun : (actor.create clock b.image elapsed req).exec b.host = (none, w₂) := by
          rw [MetadataActor.create, exec_bind, hpersist, MetadataImage.createTopics_eq,
            h.path_eq actor hactor]
          dsimp only
          rw [exec_bind, ← requested, hcreate]
        exact ⟨logs₁, hext₁, h.create_of_panic clock hfresh hactor hrun hstocks₁ hw₁.good⟩
      · obtain ⟨hids', hclean', logs', hext', hstocked⟩ := hnext next w₂ hcreate
        have hrun : (actor.create clock b.image elapsed req).exec b.host =
            (some (next, ⟨elapsed, req.topics.map MetadataActor.response⟩),
              w₂.release (actor.handle.actor :: next.actors)) := by
          rw [MetadataActor.create, exec_bind, hpersist, MetadataImage.createTopics_eq,
            h.path_eq actor hactor]
          dsimp only
          rw [exec_bind, ← requested, hcreate]
          rfl
        have hknown : Known path (b.step path (.create clock elapsed req)) :=
          (h.known.create_known hfresh).1
        rw [step_create hactor hrun] at hknown ⊢
        refine ⟨logs', fun k hk => (hext₁ k hk).trans (hext' k hk), ⟨hknown.owned,
          stocks_release (fun _ hn => List.mem_cons_of_mem _ hn) hstocked.stocks, hstocked.good⟩,
          hknown.path_eq, hids', fun _ dir hdir => ?_⟩
        apply hclean' dir
        rw [metadataOwner, hactor]
        exact hdir

end Stocked

/-! ### The first start -/

section First

variable {path : String} {Q : TopicPartition → Record → Prop} {w : Host} {order : TopicOrder}

/-- There are no topics in a log that has just been created. -/
lemma listed_nil (order : TopicOrder)
    (hclean : Clean (w.dirs (metadataPartition.directory path))) :
    ∀ r ∈ ((MetadataActor.listed path order).exec w).1, r.2 = [] := by
  intro r hr
  have hrun := exec_eq_of_fst hr
  generalize ((MetadataActor.listed path order).exec w).2 = w₂ at hrun
  obtain ⟨handle, w₁, hspawn, hrun⟩ := exec_bind_eq_some.mp hrun
  rw [spawn_exec] at hspawn
  cases hstart : PartitionHandle.start (MetadataActor.config path) w with
  | none =>
    rw [hstart] at hspawn
    cases hspawn
  | some p =>
    rw [hstart] at hspawn
    cases hspawn
    rw [exec_get_bind] at hrun
    obtain ⟨p', hp', hrun⟩ := exec_orPanic_bind_eq_some.mp hrun
    obtain rfl : p = p' := Option.some.inj ((w.partition_add _ p).symm.trans hp')
    obtain ⟨batches, hbatches, hrun⟩ := exec_orPanic_bind_eq_some.mp hrun
    obtain ⟨records, hrecords, hrun⟩ := exec_orPanic_bind_eq_some.mp hrun
    cases hrun
    rw [PartitionHandle.start] at hstart
    split_ifs at hstart
    obtain ⟨free, hfree, hdisk⟩ := hclean
    have hdisk' : w.dirs (MetadataActor.config path).directory = ⟨free, ∅⟩ := hdisk
    rw [hdisk'] at hstart
    obtain ⟨hlogs, v, hhead, hbase, hsize⟩ := Storage.new_first hstart
    have hsize' : v.size = (Storage.bytes []).length := hsize
    have hnone : MetadataActor.segmentBatches p = some [] :=
      segmentBatches_eq hhead hbase hsize' (hlogs 0)
    rw [hnone] at hbatches
    cases hbatches
    cases hrecords
    exact (order.topics_perm []).eq_nil

lemma restart_of_listed_none {w₁ : Host}
    (h : (MetadataActor.listed path order).exec ((down w).host.release []) = (none, w₁)) :
    (down w).restart path order = ⟨.empty, none, w₁.release []⟩ := by
  rw [restart, MetadataActor.new_eq, exec_bind, h]

lemma restart_of_listed_nil {w₁ : Host} {handle : PartitionHandle}
    (h : (MetadataActor.listed path order).exec ((down w).host.release [])
      = (some (handle, []), w₁)) :
    (down w).restart path order = ⟨.empty, some ⟨path, handle⟩, w₁.release [handle.actor]⟩ := by
  rw [restart, MetadataActor.new_eq, exec_bind, h]
  rfl

lemma stocked_first [Crc] (hclean : ∀ dir, Clean (w.dirs dir)) :
    ((down w).restart path order).Stocked path Q fun _ => [] := by
  set w' := (down w).host.release [] with hw'
  have hclean' : ∀ dir, Clean (w'.dirs dir) := hclean
  have hnil := listed_nil order (hclean' (metadataPartition.directory path))
  have hfresh : (down w).FreshEvent path (.start order) := by
    intro r hr
    rw [hnil r hr]
    exact ⟨List.nodup_nil, fun _ hq => absurd hq List.not_mem_nil,
      fun _ hq => absurd hq List.not_mem_nil⟩
  have hknown : Known path ((down w).restart path order) := restart_known hfresh
  have hhost : ((MetadataActor.listed path order).exec w').2
      = ((PartitionHandle.spawn 0 (MetadataActor.config path)).exec w').2 := listed_host order w'
  rcases hlisted : (MetadataActor.listed path order).exec w' with ⟨_ | ⟨handle, topics⟩, w₁⟩
  · rw [restart_of_listed_none hlisted] at hknown ⊢
    exact ⟨⟨hknown.owned, fun _ hk => absurd hk List.not_mem_nil,
      fun _ hk => absurd hk List.not_mem_nil⟩, hknown.path_eq,
      fun _ he => absurd he List.not_mem_nil, fun hnone => absurd hnone Bool.false_ne_true⟩
  · rw [hlisted] at hnil hhost
    obtain rfl : topics = [] := hnil _ rfl
    rw [restart_of_listed_nil hlisted] at hknown ⊢
    refine ⟨⟨hknown.owned, fun _ hk => absurd hk List.not_mem_nil,
      fun _ hk => absurd hk List.not_mem_nil⟩, hknown.path_eq,
      fun _ he => absurd he List.not_mem_nil, fun _ dir hdir => ?_⟩
    have hne : dir ≠ (MetadataActor.config path).directory := by
      rintro rfl
      exact hdir (List.mem_singleton_self _)
    have hw₁ : w₁.dirs dir = w'.dirs dir := by
      rw [show w₁ = _ from hhost, spawn_exec]
      cases PartitionHandle.start (MetadataActor.config path) w' with
      | none => rfl
      | some p => exact Function.update_of_ne hne _ _
    show Clean (w₁.dirs dir)
    rw [hw₁]
    exact hclean' dir

/-- The first start is the same in whatever order the topics are gone through. -/
theorem restart_first (hclean : Clean (w.dirs (metadataPartition.directory path))) :
    (down w).restart path order = (down w).restart path .asKept := by
  have hlisted : MetadataActor.listed path order = (do
      let r ← MetadataActor.listed path .asKept
      pure (r.1, order.topics r.2)) := by
    simp only [MetadataActor.listed, TopicOrder.asKept, bind_assoc, pure_bind, id]
  have hnil := listed_nil .asKept (w := (down w).host.release []) hclean
  rcases hrun : (MetadataActor.listed path .asKept).exec ((down w).host.release [])
    with ⟨_ | ⟨handle, topics⟩, w₁⟩
  · have hrun' : (MetadataActor.listed path order).exec ((down w).host.release []) = (none, w₁) := by
      rw [hlisted, exec_bind, hrun]
    rw [restart_of_listed_none hrun, restart_of_listed_none hrun']
  · rw [hrun] at hnil
    obtain rfl : topics = [] := hnil _ rfl
    have hrun' : (MetadataActor.listed path order).exec ((down w).host.release [])
        = (some (handle, []), w₁) := by
      rw [hlisted, exec_bind, hrun]
      dsimp only
      rw [(order.topics_perm []).eq_nil]
      rfl
    rw [restart_of_listed_nil hrun, restart_of_listed_nil hrun']

end First

/-! ### Requests -/

section Handle

variable {path : String} {Q : TopicPartition → Record → Prop} {logs : ℕ → List Filled}
  {b : BrokerState}

variable [Crc]

/-- The batches of the request are such as producers build, with records that `Q` allows; new topics
get directories of their own. -/
def Permits (path : String) (Q : TopicPartition → Record → Prop) (b : BrokerState)
    (env : Surroundings) (req : Frame) : Prop :=
  match req.body with
  | .produce body => AdmissibleRequest Q env.waiting body
  | .topic body => b.metadata.isSome → Fresh path b.image ((requested body).map MetadataImage.key)
  | _ => True

/-- What any client asks for, whether it is answered or the handler panics. -/
lemma Stocked.handle (h : b.Stocked path Q logs) (brokers : List BrokerConfig) {env : Surroundings}
    {req : Frame} (hreq : b.Permits path Q env req) :
    (∀ q ∈ b.image.keys, (b.handle brokers env req).2.image.partitions.lookup q =
      b.image.partitions.lookup q) ∧
    ∃ logs', (∀ k ∈ b.image.owners path, logs k.2 <+: logs' k.2) ∧
      (b.handle brokers env req).2.Stocked path Q logs' := by
  obtain ⟨size, header, body⟩ := req
  cases body with
  | fetch body =>
    exact ⟨fun _ _ => rfl, h.grow (grows_handleFetch env.elapsed body b.host)⟩
  | produce body =>
    exact ⟨fun _ _ => rfl, h.grow (grows_handleProduce h.actors_nodup env.elapsed hreq b.host)⟩
  | metadata body =>
    refine ⟨fun _ _ => rfl, h.grow ?_⟩
    rw [handleMetadata_host]
    exact .refl b.host
  | topic body =>
    have hstep : (b.handle brokers env ⟨size, header, .topic body⟩).2
        = b.step path (.create env.clock env.elapsed body) := by
      simp only [BrokerState.handle, step]
      split <;> next heq => rw [heq]
    have hfresh : b.FreshEvent path (.create env.clock env.elapsed body) := hreq
    rw [hstep]
    exact ⟨(h.known.create_known hfresh).2, h.create env.clock hfresh⟩
  | produceResponse | fetchResponse | metadataResponse | topicResponse =>
    exact ⟨fun _ _ => rfl, logs, fun _ _ => List.prefix_rfl, h⟩

end Handle

end BrokerState

end Musil.Broker
