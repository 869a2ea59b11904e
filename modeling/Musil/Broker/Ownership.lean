import Musil.Broker.Lifecycle

/-!
# Owners of directories

Two partition actors in one directory would write the same files. Nothing in the broker prevents
it: a topic name is used as the client sent it, and the image forgets the handle that a new one
replaces, while its actor runs until the end of the command. A command or a start whose partitions
have directories of their own keeps one owner for each.
-/

namespace Musil.Broker

open Network Proto Threaded Run

/-! ### Owners -/

/-- Live actors work in different directories. -/
def Host.Exclusive (w : Host) : Prop :=
  ∀ (n n' : ℕ) (c c' : Cell), w.cells[n]? = some c → w.cells[n']? = some c' →
    c.actor.isSome → c'.actor.isSome → c.dir = c'.dir → n = n'

/-- Each directory of the list belongs to the actor beside it, and there are no other actors. -/
structure Host.Owned (ks : List (Directory × ℕ)) (w : Host) : Prop where
  nodup : (ks.map Prod.fst).Nodup
  known : ∀ k ∈ ks, ∃ c, w.cells[k.2]? = some c ∧ c.dir = k.1
  live : ∀ n c, w.cells[n]? = some c → c.actor.isSome → (c.dir, n) ∈ ks

namespace Host.Owned

variable {w w' : Host} {ks ks' : List (Directory × ℕ)}

lemma exclusive (h : Owned ks w) : w.Exclusive := by
  intro n n' c c' hn hn' hc hc' hdir
  have heq := List.inj_on_of_nodup_map h.nodup (h.live n c hn hc) (h.live n' c' hn' hc') hdir
  exact congrArg Prod.snd heq

lemma thinner (h : Owned ks w) (hw : w.Thinner w') : Owned ks w' := by
  refine ⟨h.nodup, fun k hk => ?_, fun n c' hn hc' => ?_⟩
  · obtain ⟨c, hc, hdir⟩ := h.known k hk
    obtain ⟨hlt, rfl⟩ := List.getElem?_eq_some_iff.mp hc
    have hlt' := hw.length_eq ▸ hlt
    exact ⟨_, List.getElem?_eq_getElem hlt', ((List.forall₂_iff_get.mp hw).2 _ hlt hlt').1.trans hdir⟩
  · obtain ⟨hlt', rfl⟩ := List.getElem?_eq_some_iff.mp hn
    have hlt := hw.length_eq ▸ hlt'
    obtain ⟨hdir, hlive⟩ := (List.forall₂_iff_get.mp hw).2 n hlt hlt'
    rw [List.get_eq_getElem, List.get_eq_getElem] at hdir
    rw [hdir]
    exact h.live n _ (List.getElem?_eq_getElem hlt) (hlive hc')

lemma lt_length {k : Directory × ℕ} (h : Owned ks w) (hk : k ∈ ks) : k.2 < w.cells.length := by
  obtain ⟨c, hc, -⟩ := h.known k hk
  exact (List.getElem?_eq_some_iff.mp hc).1

/-- A new actor owns its directory when nobody else does. -/
lemma add {dir : Directory} {p : Storage.Partition} (h : Owned ks w)
    (hnew : dir ∉ ks.map Prod.fst) : Owned ((dir, w.cells.length) :: ks) (w.add dir p) := by
  refine ⟨List.nodup_cons.mpr ⟨hnew, h.nodup⟩, fun k hk => ?_, fun n c hn hc => ?_⟩
  · rcases List.mem_cons.mp hk with rfl | hk
    · exact ⟨_, List.getElem?_concat_length, rfl⟩
    · obtain ⟨c, hc, hdir⟩ := h.known k hk
      exact ⟨c, List.getElem?_append_left (List.getElem?_eq_some_iff.mp hc).1 ▸ hc, hdir⟩
  · rcases Nat.lt_trichotomy n w.cells.length with hlt | rfl | hgt
    · rw [Host.add, List.getElem?_append_left hlt] at hn
      exact List.mem_cons_of_mem _ (h.live n c hn hc)
    · rw [Host.add, List.getElem?_concat_length] at hn
      cases hn
      exact List.mem_cons_self
    · rw [Host.add, List.getElem?_eq_none (by rwa [List.length_append])] at hn
      cases hn

/-- Once the actors outside of a part of the list have ended, that part is enough. -/
lemma release (h : Owned ks w) (hks : ks'.Sublist ks) :
    Owned ks' (w.release (ks'.map Prod.snd)) := by
  have hthin := h.thinner (Host.thinner_release w (ks'.map Prod.snd))
  refine ⟨h.nodup.sublist (hks.map _), fun k hk => hthin.known k (hks.subset hk), ?_⟩
  intro n c hn hc
  have hmem : n ∈ ks'.map Prod.snd := by
    by_contra hout
    simp only [Host.release, List.getElem?_mapIdx, Option.map_eq_some_iff, if_neg hout] at hn
    obtain ⟨c, -, rfl⟩ := hn
    cases hc
  obtain ⟨k, hk, rfl⟩ := List.mem_map.mp hmem
  obtain ⟨c', hn', hdir⟩ := hthin.known k (hks.subset hk)
  obtain rfl : c' = c := Option.some_inj.mp (hn'.symm.trans hn)
  rw [hdir]
  exact hk

end Host.Owned

/-- When all actors have ended, nobody owns a directory. -/
lemma owned_nil (w : Host) : Host.Owned [] (w.release []) := by
  refine ⟨List.nodup_nil, fun _ hk => absurd hk List.not_mem_nil, fun n c hn hc => ?_⟩
  simp only [Host.release, List.getElem?_mapIdx, Option.map_eq_some_iff] at hn
  obtain ⟨c, -, rfl⟩ := hn
  cases hc

/-! ### The owners that a broker knows -/

/-- The partition of the metadata log. -/
def metadataPartition : TopicPartition := ⟨"__cluster-metadata", 0⟩

lemma metadataPartition_plain : metadataPartition.Plain := by
  show '/' ∉ "__cluster-metadata".toList
  decide

/-- The partitions of an image with their actors. -/
def MetadataImage.owners (path : String) (image : MetadataImage) : List (Directory × ℕ) :=
  image.partitions.entries.map fun e => (e.1.directory path, e.2.actor)

/-- No two of the partitions share a directory, and none has the directory of a partition in the
image or that of the metadata log. -/
structure Fresh (path : String) (image : MetadataImage) (ps : List TopicPartition) : Prop where
  nodup : (ps.map (TopicPartition.directory path)).Nodup
  metadata : ∀ p ∈ ps, p.directory path ≠ metadataPartition.directory path
  image : ∀ p ∈ ps, ∀ q ∈ image.keys, p.directory path ≠ q.directory path

section Partitions

variable {path : String} {image : MetadataImage}

instance Fresh.decidable (ps : List TopicPartition) : Decidable (Fresh path image ps) :=
  decidable_of_iff ((ps.map (TopicPartition.directory path)).Nodup ∧
      (∀ p ∈ ps, p.directory path ≠ metadataPartition.directory path) ∧
      ∀ p ∈ ps, ∀ q ∈ image.keys, p.directory path ≠ q.directory path)
    ⟨fun h => ⟨h.1, h.2.1, h.2.2⟩, fun h => ⟨h.nodup, h.metadata, h.image⟩⟩

/-- When no topic is a path, the partitions only have to be new and different. -/
lemma fresh_iff_of_plain {ps : List TopicPartition} (hps : ∀ p ∈ ps, p.Plain)
    (himage : ∀ q ∈ image.keys, q.Plain) :
    Fresh path image ps ↔ ps.Nodup ∧ metadataPartition ∉ ps ∧ ∀ p ∈ ps, p ∉ image.keys := by
  have hne : ∀ p ∈ ps, ∀ q : TopicPartition, q.Plain →
      (p.directory path ≠ q.directory path ↔ p ≠ q) := fun p hp q hq =>
    ((hps p hp).directory_inj hq).not
  constructor
  · rintro ⟨hnodup, hmeta, hkeys⟩
    refine ⟨hnodup.of_map, fun hmem => hmeta _ hmem rfl, fun p hp hq => hkeys p hp p hq rfl⟩
  · rintro ⟨hnodup, hmeta, hkeys⟩
    refine ⟨?_, fun p hp => ?_, fun p hp q hq => ?_⟩
    · exact hnodup.map_on fun p hp q hq hdir => ((hps p hp).directory_inj (hps q hq)).mp hdir
    · exact (hne p hp _ metadataPartition_plain).mpr fun heq => hmeta (heq ▸ hp)
    · exact (hne p hp q (himage q hq)).mpr fun heq => hkeys p hp (heq ▸ hq)

lemma Fresh.of_isPrefix {ps qs : List TopicPartition} (h : Fresh path image ps) (hqs : qs <+: ps) :
    Fresh path image qs :=
  ⟨h.nodup.sublist (hqs.sublist.map _), fun p hp => h.metadata p (hqs.subset hp),
    fun p hp => h.image p (hqs.subset hp)⟩

lemma MetadataImage.insert_entries {key : TopicPartition} {handle : PartitionHandle}
    (hkey : key ∉ image.keys) :
    (image.insert key handle).partitions.entries = ⟨key, handle⟩ :: image.partitions.entries :=
  AList.entries_insert_of_notMem hkey

lemma MetadataImage.owners_insert {key : TopicPartition} {handle : PartitionHandle}
    (hkey : key ∉ image.keys) :
    (image.insert key handle).owners path =
      (key.directory path, handle.actor) :: image.owners path := by
  rw [owners, insert_entries hkey]
  rfl

lemma MetadataImage.map_fst_owners :
    (image.owners path).map Prod.fst = image.keys.map (TopicPartition.directory path) := by
  simp only [owners, keys, AList.keys, List.keys, List.map_map]
  rfl

lemma MetadataImage.map_snd_owners : (image.owners path).map Prod.snd = image.actors := by
  rw [owners, List.map_map]
  rfl

lemma MetadataImage.notMem_keys_of_free {key : TopicPartition} {ms : List (Directory × ℕ)}
    (hfree : key.directory path ∉ (image.owners path ++ ms).map Prod.fst) : key ∉ image.keys := by
  intro hmem
  apply hfree
  rw [List.map_append, map_fst_owners]
  exact List.mem_append_left _ (List.mem_map_of_mem hmem)

lemma MetadataImage.notMem_owners_insert {key : TopicPartition} {handle : PartitionHandle}
    {ms : List (Directory × ℕ)} {dir : Directory} (hkey : key ∉ image.keys) :
    dir ∉ ((image.insert key handle).owners path ++ ms).map Prod.fst ↔
      dir ≠ key.directory path ∧ dir ∉ (image.owners path ++ ms).map Prod.fst := by
  rw [owners_insert hkey, List.cons_append, List.map_cons, List.mem_cons, not_or]

/-- Partitions with directories of their own get actors that own them, and no handle that the image
has is replaced. The list `ms` is of the owners outside of the image. -/
lemma createPartitions_owned {ts : List (TopicRecord × PartitionRecord)} {w : Host}
    {ms : List (Directory × ℕ)} (hw : Host.Owned (image.owners path ++ ms) w)
    (hnodup : ((ts.map MetadataImage.key).map (TopicPartition.directory path)).Nodup)
    (hfree : ∀ p ∈ ts.map MetadataImage.key,
      p.directory path ∉ (image.owners path ++ ms).map Prod.fst) :
    ∃ new, Host.Owned (new ++ (image.owners path ++ ms))
        ((image.createPartitions path ts).exec w).2 ∧
      ∀ next w', (image.createPartitions path ts).exec w = (some next, w') →
        next.owners path = new ++ image.owners path ∧
          ∀ q ∈ image.keys, next.partitions.lookup q = image.partitions.lookup q := by
  induction ts generalizing image w with
  | nil =>
    refine ⟨[], hw, fun next w' hrun => ?_⟩
    cases hrun
    exact ⟨rfl, fun _ _ => rfl⟩
  | cons t ts ih =>
    simp only [List.map_cons, List.nodup_cons, List.forall_mem_cons] at hnodup hfree
    obtain ⟨hnot, hnodup⟩ := hnodup
    obtain ⟨hfirst, hfree⟩ := hfree
    have hkey : MetadataImage.key t ∉ image.keys := MetadataImage.notMem_keys_of_free hfirst
    rw [MetadataImage.createPartitions, exec_bind, spawn_exec]
    cases PartitionHandle.start (MetadataImage.config path t.1 t.2) w with
    | none => exact ⟨[], hw, nofun⟩
    | some p =>
      set handle : PartitionHandle := ⟨t.2.partitionId.toUInt32, w.cells.length⟩
      have howners : (image.insert (MetadataImage.key t) handle).owners path =
          ((MetadataImage.key t).directory path, handle.actor) :: image.owners path :=
        MetadataImage.owners_insert hkey
      have hw₁ : Host.Owned ((image.insert (MetadataImage.key t) handle).owners path ++ ms)
          (w.add ((MetadataImage.key t).directory path) p) := by
        rw [howners, List.cons_append]
        exact hw.add hfirst
      obtain ⟨new, hnew, hnext⟩ := ih hw₁ hnodup fun q hq => by
          refine (MetadataImage.notMem_owners_insert hkey).mpr ⟨fun heq => hnot ?_, hfree q hq⟩
          exact heq ▸ List.mem_map_of_mem hq
      refine ⟨new ++ [((MetadataImage.key t).directory path, handle.actor)], ?_,
        fun next w' hrun => ?_⟩
      · rw [List.append_assoc, List.singleton_append, ← List.cons_append, ← howners]
        exact hnew
      · obtain ⟨hnextOwners, hlookup⟩ := hnext next w' hrun
        refine ⟨?_, fun q hq => ?_⟩
        · rw [hnextOwners, howners, List.append_assoc, List.singleton_append]
        · have hne : q ≠ MetadataImage.key t := fun heq => hkey (heq ▸ hq)
          rw [hlookup q ((AList.mem_insert _).mpr (.inr hq)), MetadataImage.insert,
            AList.lookup_insert_ne hne]

/-- Reading the topics leaves the host as it is after the metadata log has been opened. -/
lemma listed_host (order : TopicOrder) (w : Host) : ((MetadataActor.listed path order).exec w).2 =
    ((PartitionHandle.spawn 0 (MetadataActor.config path)).exec w).2 := by
  rw [MetadataActor.listed, exec_bind]
  rcases (PartitionHandle.spawn 0 (MetadataActor.config path)).exec w with ⟨_ | handle, w₁⟩
  · rfl
  · symm
    refine exec_bind_related (fun _ _ _ => Eq.trans) rfl fun _ _ _ => ?_
    refine exec_bind_related (fun _ _ _ => Eq.trans) rfl fun _ _ _ => ?_
    refine exec_bind_related (fun _ _ _ => Eq.trans) rfl fun _ _ _ => ?_
    exact exec_bind_related (fun _ _ _ => Eq.trans) rfl fun _ _ _ => rfl

lemma listed_owned (path : String) (order : TopicOrder) {w : Host} (hw : Host.Owned [] w) :
    ∃ ks, Host.Owned ks ((MetadataActor.listed path order).exec w).2 ∧
      ∀ r w', (MetadataActor.listed path order).exec w = (some r, w') →
        ks = [(metadataPartition.directory path, r.1.actor)] := by
  rw [listed_host, MetadataActor.listed, exec_bind, spawn_exec]
  cases PartitionHandle.start (MetadataActor.config path) w with
  | none => exact ⟨[], hw, fun r w' hrun => absurd (congrArg Prod.fst hrun) (by simp)⟩
  | some p =>
    refine ⟨_, hw.add List.not_mem_nil, fun r w' hrun => ?_⟩
    simp only [exec_get_bind, exec_orPanic_bind_eq_some] at hrun
    obtain ⟨q, -, batches, -, records, -, hr⟩ := hrun
    cases hr
    rfl

end Partitions

/-! ### One owner for each directory -/

namespace BrokerState

variable (path : String)

/-- The metadata log and the partitions of the image with their actors. -/
def owners (b : BrokerState) : List (Directory × ℕ) :=
  b.image.owners path ++
    b.metadata.toList.map fun actor => (metadataPartition.directory path, actor.handle.actor)

/-- The partitions that an event starts have directories of their own. -/
def FreshEvent (b : BrokerState) : BrokerEvent → Prop
  | .start order => ∀ r ∈ ((MetadataActor.listed path order).exec (b.host.release [])).1,
    Fresh path .empty ((MetadataImage.withTopics r.2).map MetadataImage.key)
  | .create _ _ req => b.metadata.isSome → Fresh path b.image ((requested req).map MetadataImage.key)

instance FreshEvent.decidable (b : BrokerState) : (e : BrokerEvent) → Decidable (b.FreshEvent path e)
  | .start _ => inferInstanceAs (Decidable (∀ r ∈ _, Fresh path .empty _))
  | .create _ _ _ => inferInstanceAs (Decidable (_ → Fresh path b.image _))

/-- At every moment of an event live actors work in different directories, and a command leaves the
handles that the image has. -/
def OneOwner [Crc] (b : BrokerState) (e : BrokerEvent) : Prop :=
  (∀ w, Moment path b e w → w.Exclusive) ∧
    ((∀ order, e ≠ .start order) → ∀ q ∈ b.image.keys,
      (b.step path e).image.partitions.lookup q = b.image.partitions.lookup q)

variable {path} {b : BrokerState} {order : TopicOrder}

/-- The owners of all directories are those that the broker knows. -/
structure Known (path : String) (b : BrokerState) : Prop where
  owned : b.host.Owned (b.owners path)
  path_eq : ∀ actor ∈ b.metadata, actor.path = path

/-- What a start begins with, and then what its topics add. -/
lemma listed_created_owned {handle : PartitionHandle} {w : Host}
    {topics : List (TopicRecord × List PartitionRecord)}
    {ts : List (TopicRecord × PartitionRecord)}
    (hlisted : (MetadataActor.listed path order).exec (b.host.release [])
      = (some (handle, topics), w))
    (hfresh : Fresh path .empty (ts.map MetadataImage.key)) :
    ∃ new, Host.Owned (new ++ [(metadataPartition.directory path, handle.actor)])
        ((MetadataImage.empty.createPartitions path ts).exec w).2 ∧
      ∀ next w', (MetadataImage.empty.createPartitions path ts).exec w = (some next, w') →
        next.owners path = new := by
  obtain ⟨ks, hks, hhandle⟩ := listed_owned path order (owned_nil b.host)
  obtain rfl := hhandle _ _ hlisted
  rw [hlisted] at hks
  have hempty : Host.Owned (MetadataImage.empty.owners path
      ++ [(metadataPartition.directory path, handle.actor)]) w := hks
  obtain ⟨new, hnew, hnext⟩ := createPartitions_owned hempty hfresh.nodup
    fun p hp hmem => hfresh.metadata p hp (List.mem_singleton.mp hmem)
  refine ⟨new, hnew, fun next w' hrun => ?_⟩
  rw [(hnext next w' hrun).1]
  exact List.append_nil new

lemma restart_known [Crc] (hfresh : b.FreshEvent path (.start order)) :
    Known path (b.restart path order) := by
  rw [FreshEvent] at hfresh
  rw [restart, MetadataActor.new_eq, exec_bind]
  rcases hlisted : (MetadataActor.listed path order).exec (b.host.release [])
    with ⟨_ | ⟨handle, topics⟩, w⟩
  · exact ⟨owned_nil w, nofun⟩
  · rw [hlisted] at hfresh
    obtain ⟨new, hnew, hnext⟩ := listed_created_owned hlisted (hfresh _ rfl)
    simp only [MetadataImage.createTopics_eq, exec_bind]
    rcases hcreate : (MetadataImage.empty.createPartitions path
      (MetadataImage.withTopics topics)).exec w with ⟨_ | next, w₁⟩
    · exact ⟨owned_nil w₁, nofun⟩
    · rw [hcreate] at hnew
      rw [← hnext next w₁ hcreate] at hnew
      refine ⟨hnew.thinner (Host.thinner_release _ _), ?_⟩
      rintro actor ⟨⟩
      rfl

/-- The partitions of a request in directories of their own are no owner's yet. -/
lemma free_of_fresh {ps : List TopicPartition} (hfresh : Fresh path b.image ps) :
    ∀ p ∈ ps, p.directory path ∉ (b.owners path).map Prod.fst := by
  intro p hp hmem
  rw [owners, List.map_append, MetadataImage.map_fst_owners] at hmem
  rcases List.mem_append.mp hmem with hmem | hmem
  · obtain ⟨q, hq, hdir⟩ := List.mem_map.mp hmem
    exact hfresh.image p hp q hq hdir.symm
  · obtain ⟨k, hk, hdir⟩ := List.mem_map.mp hmem
    obtain ⟨actor, -, rfl⟩ := List.mem_map.mp hk
    exact hfresh.metadata p hp hdir.symm

section Create

variable [Crc] {actor : MetadataActor} {clock : Host → UInt64} {elapsed : UInt32}
  {req : CreateTopicRequest}

/-- What a request adds to the owners, also when the actor panics. -/
lemma Known.create_owned (clock : Host → UInt64) (elapsed : UInt32) (h : Known path b)
    (hactor : b.metadata = some actor)
    (hfresh : Fresh path b.image ((requested req).map MetadataImage.key)) :
    ∃ new, Host.Owned (new ++ b.owners path)
        ((actor.create clock b.image elapsed req).exec b.host).2 ∧
      ∀ r w', (actor.create clock b.image elapsed req).exec b.host = (some r, w') →
        r.1.owners path = new ++ b.image.owners path ∧
          ∀ q ∈ b.image.keys, r.1.partitions.lookup q = b.image.partitions.lookup q := by
  have hwritten := h.owned.thinner
    (thinner_persist actor clock (req.topics.flatMap MetadataActor.records))
  rw [MetadataActor.create, exec_bind]
  rcases hpersist : (actor.persist clock (req.topics.flatMap MetadataActor.records)).exec b.host
    with ⟨_ | u, w⟩
  · rw [hpersist] at hwritten
    exact ⟨[], hwritten, nofun⟩
  · rw [hpersist] at hwritten
    obtain ⟨new, hnew, hnext⟩ := createPartitions_owned hwritten hfresh.nodup (free_of_fresh hfresh)
    simp only [h.path_eq actor hactor, MetadataImage.createTopics_eq, exec_bind]
    rcases hcreate : (b.image.createPartitions path
      (MetadataImage.withTopics (MetadataActor.topicRecords req))).exec w with ⟨_ | next, w₁⟩
    · rw [requested, hcreate] at hnew
      exact ⟨new, hnew, nofun⟩
    · rw [requested, hcreate] at hnew
      refine ⟨new, hnew.thinner (Host.thinner_release _ _), fun r w' hrun => ?_⟩
      cases hrun
      exact hnext next w₁ hcreate

lemma Known.create_known (h : Known path b)
    (hfresh : b.FreshEvent path (.create clock elapsed req)) :
    Known path (b.step path (.create clock elapsed req)) ∧ ∀ q ∈ b.image.keys,
      (b.step path (.create clock elapsed req)).image.partitions.lookup q =
        b.image.partitions.lookup q := by
  cases hactor : b.metadata with
  | none =>
    rw [step_create_of_ended hactor]
    exact ⟨h, fun _ _ => rfl⟩
  | some actor =>
    obtain ⟨new, hnew, hnext⟩ := h.create_owned clock elapsed hactor
      (hfresh (Option.isSome_of_mem hactor))
    rcases hrun : (actor.create clock b.image elapsed req).exec b.host with ⟨_ | ⟨image, res⟩, w⟩
    · rw [hrun] at hnew
      rw [step_create_of_panic hactor hrun]
      have hpart : (b.image.owners path).Sublist (new ++ b.owners path) :=
        (List.sublist_append_left _ _).trans (List.sublist_append_right _ _)
      have hended := hnew.release hpart
      rw [MetadataImage.map_snd_owners] at hended
      refine ⟨⟨?_, nofun⟩, fun _ _ => rfl⟩
      rw [owners, Option.toList_none, List.map_nil, List.append_nil]
      exact hended
    · rw [hrun] at hnew
      rw [step_create hactor hrun]
      obtain ⟨howners, hlookup⟩ := hnext _ _ hrun
      refine ⟨⟨?_, ?_⟩, hlookup⟩
      · rw [owners, hactor, ← List.append_assoc, ← howners] at hnew
        exact hnew
      · rintro _ ⟨⟩
        exact h.path_eq actor hactor

end Create

/-- A step of which the partitions have directories of their own. -/
lemma Known.step [Crc] (h : Known path b) {e : BrokerEvent} (hfresh : b.FreshEvent path e) :
    Known path (b.step path e) := by
  cases e with
  | start order => exact restart_known hfresh
  | create clock elapsed req => exact (h.create_known hfresh).1

lemma Known.oneOwner [Crc] (h : Known path b) {e : BrokerEvent} (hfresh : b.FreshEvent path e) :
    b.OneOwner path e := by
  refine ⟨fun w hw => ?_, fun hne => ?_⟩
  · cases hw with
    | before => exact h.owned.exclusive
    | listed order =>
      obtain ⟨ks, hks, -⟩ := listed_owned path order (owned_nil b.host)
      exact hks.exclusive
    | started hlisted hts =>
      rw [FreshEvent, hlisted] at hfresh
      obtain ⟨new, hnew, -⟩ := listed_created_owned hlisted ((hfresh _ rfl).of_isPrefix (hts.map _))
      exact hnew.exclusive
    | written hactor hrs => exact (h.owned.thinner (thinner_persist _ _ _)).exclusive
    | @created actor clock elapsed req w ts hactor hwritten hts =>
      have hts := (hfresh (Option.isSome_of_mem hactor)).of_isPrefix (hts.map MetadataImage.key)
      have hw := h.owned.thinner (thinner_persist actor clock
        (req.topics.flatMap MetadataActor.records))
      rw [hwritten] at hw
      obtain ⟨new, hnew, -⟩ := createPartitions_owned hw hts.nodup (free_of_fresh hts)
      rw [h.path_eq actor hactor]
      exact hnew.exclusive
    | after => exact (h.step hfresh).owned.exclusive
  · cases e with
    | start order => exact absurd rfl (hne order)
    | create clock elapsed req => exact (h.create_known hfresh).2

end BrokerState

/-- A host without live actors, before a broker is started on it. -/
def BrokerState.down (w : Host) : BrokerState := ⟨.empty, none, w.release []⟩

/-- In every run of starts and commands whose partitions have directories of their own, every
directory has at most one owner at every moment, and no command replaces a handle. -/
theorem oneOwner_of_fresh [Crc] (path : String) (w : Host) (es : List BrokerEvent)
    (hfresh : Meets (BrokerState.step path) (BrokerState.FreshEvent path) (.down w) es)
    (n : ℕ) (e : BrokerEvent) (he : es[n]? = some e) :
    (run (BrokerState.step path) (.down w) (es.take n)).OneOwner path e := by
  have hknown : BrokerState.Known path (run (BrokerState.step path) (.down w) (es.take n)) :=
    run_invariant (fun _ _ h hok => h.step hok) ⟨owned_nil w, nofun⟩ (hfresh.take n)
  exact hknown.oneOwner (hfresh.get he)

/-! ### A topic that is created twice -/

section Examples

local instance : Crc := Crc.castagnoli

/-- Empty directories, of which every partition can be opened. -/
def blank : Host := ⟨fun _ => ⟨1 <<< 20, ∅⟩, fun _ => true, []⟩

/-- A command for a topic with one partition. -/
def createOne (name : String) : BrokerEvent :=
  .create (fun _ => 0) 0 ⟨[⟨name, 1, 1, []⟩], 0, false⟩

lemma fresh_orders_payments :
    Meets (BrokerState.step "data") (BrokerState.FreshEvent "data") (.down blank)
      [.start .asKept, createOne "orders", createOne "payments"] := by
  decide +kernel

theorem oneOwner_orders_payments :
    (run (BrokerState.step "data") (.down blank) [.start .asKept, createOne "orders"]).OneOwner "data"
      (createOne "payments") :=
  oneOwner_of_fresh "data" blank _ fresh_orders_payments 2 _ rfl

/-- The broker after the first command for the topic. -/
def ordersOnce : BrokerState :=
  run (BrokerState.step "data") (.down blank) [.start .asKept, createOne "orders"]

/-- The second command starts a second actor in the directory while the first one is alive, and
replaces its handle. -/
theorem oneOwner_not_orders :
    (∃ w, ordersOnce.Moment "data" (createOne "orders") w ∧
      w.cells.map (fun c => (c.dir, c.actor.isSome)) =
        [(["data", "__cluster-metadata-0"], true), (["data", "orders-0"], true),
          (["data", "orders-0"], true)]) ∧
    ordersOnce.image.partition "orders" 0 = some ⟨0, 1⟩ ∧
    (ordersOnce.step "data" (createOne "orders")).image.partition "orders" 0 = some ⟨0, 2⟩ ∧
    ¬ ordersOnce.OneOwner "data" (createOne "orders") := by
  have hactor : ordersOnce.metadata = some ⟨"data", ⟨0, 0⟩⟩ := by decide +kernel
  have hwritten : (((⟨"data", ⟨0, 0⟩⟩ : MetadataActor).persist (fun _ => 0)
      (ordersTopic.topics.flatMap MetadataActor.records)).exec ordersOnce.host).1 = some () := by
    decide +kernel
  refine ⟨⟨_, .created hactor (exec_eq_of_fst hwritten) List.prefix_rfl, by decide +kernel⟩,
    by decide +kernel, by decide +kernel, fun h => ?_⟩
  have hkept := h.2 nofun ⟨"orders", 0⟩ (by decide +kernel)
  exact absurd hkept (by decide +kernel)

end Examples

end Musil.Broker
