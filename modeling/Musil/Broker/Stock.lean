import Musil.Broker.Ownership
import Musil.Broker.Dispatch
import Musil.Consumer.OffsetSync

/-!
# What the partitions of a broker hold

Every partition that a broker has a handle of holds a sequence of batches. No request takes any of
them away: one may add batches of its own, also when its handler panics, and leaves the other
partitions as they are, since each works in a directory of its own.
-/

namespace Musil.Broker

open Network Proto Threaded Consumer
open Storage (Partition PartitionActor PartitionCommand PartitionState Reply Running Shows
  AtEnd stored)

/-! ### One partition -/

/-- The partition holds the batches `xs`, and its actor has not ended or left them readable. -/
structure Stocks (p : Partition) (xs : List Filled) : Prop where
  leo_eq : p.state.logEndOffset = (xs.flatMap Filled.recs).length
  leo_lt : p.state.logEndOffset < 2 ^ 63
  decodable : System.Decodable xs
  running : ∀ a, p.actor = some a → Running p a xs ∧ AtEnd p.disk a.active
  shows : Shows p.disk p.state xs

section Stocks

variable {p : Partition} {a : PartitionActor} {xs : List Filled}

lemma Stocks.of_running (h : Running p a xs) (hend : AtEnd p.disk a.active)
    (hxs : System.Decodable xs) : Stocks p xs where
  leo_eq := by rw [h.leo_eq, Storage.endOffset, Nat.zero_add]
  leo_lt := h.leo_lt
  decodable := hxs
  running b hb := by
    obtain rfl : a = b := Option.some.inj (h.actor.symm.trans hb)
    exact ⟨h, hend⟩
  shows := h.shows

lemma recs_stored (st : PartitionState) (x : Filled) : (stored st x).recs = x.recs := rfl

/-- An append adds its batch at the end of the log, or ends the actor. -/
lemma Stocks.append [Crc] (h : Stocks p xs) (ha : p.actor = some a) (x : Produced)
    (acks : Storage.Acks) (done : ℕ) :
    (Stocks (p.handle (.append x.batch acks done)).1 xs ∧
        (p.handle (.append x.batch acks done)).1.actor = none ∧
        (p.handle (.append x.batch acks done)).2 = []) ∨
      (Stocks (p.handle (.append x.batch acks done)).1 (xs ++ [stored p.state x.toFilled]) ∧
        (acks ≠ .all → (p.handle (.append x.batch acks done)).2
          = [.appended done (a.response p.state.logEndOffset)])) := by
  obtain ⟨hrunning, hend⟩ := h.running a ha
  rw [Partition.handle_append ha]
  rcases hp : a.handleAppend p.disk p.state x.batch acks done with ⟨p', out⟩
  rcases hrunning.append (x := x.toFilled) hend hp with ⟨hnone, hstate, hout, hkeep⟩ |
    ⟨a', hrunning', -, hend', -, hout⟩
  · refine .inl ⟨⟨?_, ?_, h.decodable, ?_, ?_⟩, hnone, hout⟩
    · exact hstate ▸ h.leo_eq
    · exact hstate ▸ h.leo_lt
    · intro b hb
      cases hnone.symm.trans hb
    · rw [show p'.state = p.state from hstate]
      exact hkeep _ _ h.shows hrunning.isBehind
  · refine .inr ⟨.of_running hrunning' hend' ?_, fun hne => hout.trans (if_neg hne)⟩
    intro y hy
    rcases List.mem_append.mp hy with hold | hnew
    · exact h.decodable y hold
    · rw [List.mem_singleton.mp hnew]
      exact ⟨x.searchable, x.sized⟩

/-- A report about a replica leaves the log as it is. -/
lemma Stocks.updateReplicaLeo (h : Stocks p xs) (ha : p.actor = some a) (id leo : ℕ) :
    Stocks (p.handle (.updateReplicaLeo id leo)).1 xs := by
  obtain ⟨hrunning, hend⟩ := h.running a ha
  rw [Partition.handle_updateReplicaLeo ha]
  exact .of_running ⟨rfl, hrunning.leo_eq, hrunning.serves⟩ hend h.decodable

end Stocks

/-! ### All partitions -/

/-- What clients and replicas ask of an actor: to append a batch as producers build them, with
records of which `good` holds, or to take note of a replica's log end. -/
def Admissible [Crc] (good : Record → Prop) : PartitionCommand → Prop
  | .append record _ _ => ∃ x : Produced, x.batch = record ∧ ∀ r ∈ x.recs, good r
  | .updateReplicaLeo _ _ => True
  | .truncate _ _ | .shutdown => False

/-- The partitions of the list `ks`, given by directory and actor, hold the batches in `logs`. The
list `ms` is of other owners of directories. -/
structure Host.Stocked (ks ms : List (Directory × ℕ)) (good : ℕ → Record → Prop)
    (logs : ℕ → List Filled) (w : Host) : Prop where
  owned : Owned (ks ++ ms) w
  stocks : ∀ k ∈ ks, ∃ p, w.partition k.2 = some p ∧ Stocks p (logs k.2)
  good : ∀ k ∈ ks, ∀ r ∈ (logs k.2).flatMap Filled.recs, good k.2 r

/-- Batches have only been added, and directories without an owner are as they were. -/
def Host.Grows (ks ms : List (Directory × ℕ)) (good : ℕ → Record → Prop) (w w' : Host) : Prop :=
  ∀ logs, w.Stocked ks ms good logs →
    (∀ dir, dir ∉ (ks ++ ms).map Prod.fst → w'.dirs dir = w.dirs dir) ∧
    ∃ logs', (∀ k ∈ ks, logs k.2 <+: logs' k.2) ∧ w'.Stocked ks ms good logs'

namespace Host

variable {ks ms : List (Directory × ℕ)} {k k' : Directory × ℕ} {good : ℕ → Record → Prop}
  {logs : ℕ → List Filled} {w w' : Host} {p q : Partition}

lemma Grows.refl (w : Host) : w.Grows ks ms good w :=
  fun logs h => ⟨fun _ _ => rfl, logs, fun _ _ => List.prefix_rfl, h⟩

lemma Grows.trans {w'' : Host} (h : w.Grows ks ms good w') (h' : w'.Grows ks ms good w'') :
    w.Grows ks ms good w'' := by
  intro logs hw
  obtain ⟨hdirs, logs', hext, hw'⟩ := h logs hw
  obtain ⟨hdirs', logs'', hext', hw''⟩ := h' logs' hw'
  exact ⟨fun dir hdir => (hdirs' dir hdir).trans (hdirs dir hdir), logs'',
    fun k hk => (hext k hk).trans (hext' k hk), hw''⟩

/-! ### A command to one actor -/

/-- Owners have different numbers. -/
lemma Owned.eq_of_actor (h : Owned ks w) (hk : k ∈ ks) (hk' : k' ∈ ks) (heq : k'.2 = k.2) :
    k' = k := by
  obtain ⟨c, hc, hdir⟩ := h.known k hk
  obtain ⟨c', hc', hdir'⟩ := h.known k' hk'
  rw [heq, hc] at hc'
  cases hc'
  exact Prod.ext (hdir'.symm.trans hdir) heq

lemma Owned.dirs_put (h : Owned ks w) (hk : k ∈ ks) {dir : Directory}
    (hdir : dir ∉ ks.map Prod.fst) : (w.put k.2 q).dirs dir = w.dirs dir := by
  obtain ⟨c, hc, hcdir⟩ := h.known k hk
  rw [put, hc]
  apply Function.update_of_ne
  rintro rfl
  exact hdir (List.mem_map.mpr ⟨k, hk, hcdir.symm⟩)

/-- A command to one actor leaves the partitions of the others as they are. -/
lemma Owned.partition_put (h : Owned ks w) (hk : k ∈ ks) (hk' : k' ∈ ks) (hne : k' ≠ k) :
    (w.put k.2 q).partition k'.2 = w.partition k'.2 := by
  obtain ⟨c, hc, hdir⟩ := h.known k hk
  obtain ⟨c', hc', hdir'⟩ := h.known k' hk'
  have hactor : k.2 ≠ k'.2 := fun heq => hne (h.eq_of_actor hk hk' heq.symm)
  have hdirs : c'.dir ≠ c.dir := by
    intro heq
    rw [hdir, hdir'] at heq
    exact hne (List.inj_on_of_nodup_map h.nodup hk' hk heq)
  rw [put, hc]
  simp only [partition, List.getElem?_set_ne hactor, hc', Option.map_some,
    Function.update_of_ne hdirs]

lemma Stocked.put (h : w.Stocked ks ms good logs) (hk : k ∈ ks) (hp : w.partition k.2 = some p)
    (hlive : p.actor.isSome) {ys : List Filled} (hq : Stocks q ys)
    (hgood : ∀ r ∈ ys.flatMap Filled.recs, good k.2 r) :
    (w.put k.2 q).Stocked ks ms good (Function.update logs k.2 ys) := by
  refine ⟨h.owned.thinner (thinner_put hp hlive), fun k' hk' => ?_, fun k' hk' => ?_⟩
  · by_cases heq : k' = k
    · subst heq
      rw [Function.update_self]
      exact ⟨q, Host.partition_put hp, hq⟩
    · have hactor : k'.2 ≠ k.2 := fun hactor => heq (h.owned.eq_of_actor
        (List.mem_append_left _ hk) (List.mem_append_left _ hk') hactor)
      rw [Function.update_of_ne hactor, h.owned.partition_put (List.mem_append_left _ hk)
        (List.mem_append_left _ hk') heq]
      exact h.stocks k' hk'
  · by_cases hactor : k'.2 = k.2
    · rw [hactor, Function.update_self]
      exact hgood
    · rw [Function.update_of_ne hactor]
      exact h.good k' hk'

/-- Another owner of a directory is given a command. -/
lemma Stocked.put_other (h : w.Stocked ks ms good logs) (hk : k ∈ ms)
    (hp : w.partition k.2 = some p) (hlive : p.actor.isSome) :
    (w.put k.2 q).Stocked ks ms good logs := by
  refine ⟨h.owned.thinner (thinner_put hp hlive), fun k' hk' => ?_, h.good⟩
  have hne : k' ≠ k := by
    rintro rfl
    have hnodup := h.owned.nodup
    rw [List.map_append] at hnodup
    exact List.disjoint_of_nodup_append hnodup (List.mem_map_of_mem hk') (List.mem_map_of_mem hk)
  rw [h.owned.partition_put (List.mem_append_right _ hk) (List.mem_append_left _ hk') hne]
  exact h.stocks k' hk'

end Host

section Commands

variable {ks ms : List (Directory × ℕ)} {good : ℕ → Record → Prop} {logs : ℕ → List Filled}
  {w w' : Host} {h : PartitionHandle} {c : PartitionCommand} {dir : Directory}

lemma prefix_update {n : ℕ} {ys : List Filled} (h : logs n <+: ys) (m : ℕ) :
    logs m <+: Function.update logs n ys m := by
  by_cases heq : m = n
  · rw [heq, Function.update_self]
    exact h
  · rw [Function.update_of_ne heq]

/-- A command is handled by a running actor, or the sender panics. -/
lemma send_cases (h : PartitionHandle) (c : PartitionCommand) (w : Host) :
    (h.send c).exec w = (none, w) ∨ ∃ p a, w.partition h.actor = some p ∧ p.actor = some a ∧
      (h.send c).exec w = (some (p.handle c).2, w.put h.actor (p.handle c).1) := by
  cases hp : w.partition h.actor with
  | none =>
    left
    rw [PartitionHandle.send, exec_get_bind, hp, exec_bind]
    rfl
  | some p =>
    cases ha : p.actor with
    | none =>
      left
      rw [PartitionHandle.send, exec_get_bind, hp, exec_bind, exec_orPanic]
      dsimp only
      rw [ha, exec_bind]
      rfl
    | some a => exact .inr ⟨p, a, rfl, ha, send_exec hp ha rfl⟩

variable [Crc]

lemma grows_send (hk : (dir, h.actor) ∈ ks) (hc : Admissible (good h.actor) c) (w : Host) :
    w.Grows ks ms good ((h.send c).exec w).2 := by
  rcases send_cases h c w with hnone | ⟨p, a, hp, ha, hsome⟩
  · rw [hnone]
    exact .refl w
  · rw [hsome]
    intro logs hw
    refine ⟨fun dir' hdir => hw.owned.dirs_put (List.mem_append_left _ hk) hdir, ?_⟩
    obtain ⟨p', hp', hstocks⟩ := hw.stocks _ hk
    obtain rfl : p = p' := Option.some.inj (hp.symm.trans hp')
    have hput {ys : List Filled} (hpre : logs h.actor <+: ys) (hq : Stocks (p.handle c).1 ys)
        (hgood : ∀ r ∈ ys.flatMap Filled.recs, good h.actor r) :
        ∃ logs', (∀ k ∈ ks, logs k.2 <+: logs' k.2) ∧
          (w.put h.actor (p.handle c).1).Stocked ks ms good logs' :=
      ⟨_, fun k _ => prefix_update hpre k.2, hw.put hk hp (Option.isSome_of_mem ha) hq hgood⟩
    cases c with
    | append record acks done =>
      obtain ⟨x, rfl, hx⟩ := hc
      rcases hstocks.append ha x acks done with ⟨hq, -, -⟩ | ⟨hq, -⟩
      · exact hput List.prefix_rfl hq (hw.good _ hk)
      · refine hput (List.prefix_append _ _) hq ?_
        rw [List.flatMap_append, List.forall_mem_append, List.flatMap_singleton, recs_stored]
        exact ⟨hw.good _ hk, hx⟩
    | updateReplicaLeo id leo =>
      exact hput List.prefix_rfl (hstocks.updateReplicaLeo ha id leo) (hw.good _ hk)
    | truncate => exact hc.elim
    | shutdown => exact hc.elim

omit [Crc] in
lemma grows_send_other (hk : (dir, h.actor) ∈ ms) (c : PartitionCommand) (w : Host) :
    w.Grows ks ms good ((h.send c).exec w).2 := by
  rcases send_cases h c w with hnone | ⟨p, a, hp, ha, hsome⟩
  · rw [hnone]
    exact .refl w
  · rw [hsome]
    intro logs hw
    exact ⟨fun dir' hdir => hw.owned.dirs_put (List.mem_append_right _ hk) hdir, logs,
      fun _ _ => List.prefix_rfl, hw.put_other hk hp (Option.isSome_of_mem ha)⟩

end Commands

/-! ### Requests -/

/-- The records that may be written to an actor's log, when `Q` says which may be to a partition's. -/
def MetadataImage.good (image : MetadataImage) (Q : TopicPartition → Record → Prop) (n : ℕ)
    (r : Record) : Prop :=
  ∀ e ∈ image.partitions.entries, e.2.actor = n → Q e.1 r

/-- Every batch of the request is one that may be written to its partition, and so are those that
others append while the client waits. -/
def AdmissibleRequest [Crc] (Q : TopicPartition → Record → Prop)
    (waiting : Host → TopicPartition → Waiting) (body : ProduceRequest) : Prop :=
  ∀ t ∈ body.topics, ∀ p ∈ t.partitions,
    (∃ x : Produced, x.batch = p.records ∧ ∀ r ∈ x.recs, Q ⟨t.topic, p.index⟩ r) ∧
    ∀ w, ∀ c ∈ (waiting w ⟨t.topic, p.index⟩).others,
      Admissible (Q ⟨t.topic, p.index⟩) c

section Requests

variable {image : MetadataImage} {path topic : String} {ms : List (Directory × ℕ)}
  {Q : TopicPartition → Record → Prop} {good : ℕ → Record → Prop} {h : PartitionHandle} {i : UInt16}
  {ks : List (Directory × ℕ)} {dir : Directory}

lemma MetadataImage.mem_entries (hpart : image.partition topic i = some h) :
    (⟨⟨topic, i⟩, h⟩ : Σ _ : TopicPartition, PartitionHandle) ∈ image.partitions.entries :=
  AList.mem_lookup_iff.mp hpart

lemma MetadataImage.mem_owners (hpart : image.partition topic i = some h) :
    (TopicPartition.directory path ⟨topic, i⟩, h.actor) ∈ image.owners path :=
  List.mem_map.mpr ⟨_, mem_entries hpart, rfl⟩

/-- Different partitions have different actors. -/
lemma Host.Owned.actors_nodup {w : Host} (hw : w.Owned (image.owners path ++ ms)) :
    image.actors.Nodup := by
  have hdirs := hw.nodup
  rw [List.map_append] at hdirs
  have hactors : (image.owners path).map Prod.snd = image.actors := MetadataImage.map_snd_owners
  rw [← hactors]
  refine (List.Nodup.of_map _ hdirs.of_append_left).map_on fun k hk k' hk' heq => ?_
  exact hw.eq_of_actor (List.mem_append_left _ hk') (List.mem_append_left _ hk) heq

lemma MetadataImage.good_of_partition (hnodup : image.actors.Nodup)
    (hpart : image.partition topic i = some h) {r : Record} (hr : Q ⟨topic, i⟩ r) :
    image.good Q h.actor r := by
  intro e he heq
  have hentry := List.inj_on_of_nodup_map hnodup he (mem_entries hpart) heq
  rw [hentry]
  exact hr

variable [Crc]

lemma Admissible.imp {good' : Record → Prop} {c : PartitionCommand} {good : Record → Prop}
    (hc : Admissible good c) (himp : ∀ r, good r → good' r) : Admissible good' c := by
  cases c with
  | append record acks done =>
    obtain ⟨x, hx, hgood⟩ := hc
    exact ⟨x, hx, fun r hr => himp r (hgood r hr)⟩
  | updateReplicaLeo => trivial
  | truncate => exact hc
  | shutdown => exact hc

lemma grows_sends (hk : (dir, h.actor) ∈ ks) {cs : List PartitionCommand}
    (hcs : ∀ c ∈ cs, Admissible (good h.actor) c) (w : Host) :
    w.Grows ks ms good ((cs.mapM h.send).exec w).2 :=
  exec_mapM_related Host.Grows.refl (fun _ _ _ => .trans) (fun c hc w => grows_send hk (hcs c hc) w) w

lemma grows_append (hk : (dir, h.actor) ∈ ks) {record : RecordBatch} {acks : Storage.Acks}
    {done : ℕ} {others : List PartitionCommand}
    (hc : Admissible (good h.actor) (.append record acks done))
    (hothers : ∀ c ∈ others, Admissible (good h.actor) c) (w : Host) :
    w.Grows ks ms good ((h.append record acks done others).exec w).2 := by
  refine exec_bind_related (fun _ _ _ => .trans) (grows_send hk hc w) fun _ w₁ _ => ?_
  refine exec_bind_related (fun _ _ _ => .trans) (grows_sends hk hothers w₁) fun _ w₂ _ => ?_
  exact exec_bind_related (fun _ _ _ => .trans) (.refl w₂) fun _ w₃ _ => .refl w₃

lemma grows_fetch (hk : (dir, h.actor) ∈ ks) (req : FetchPartition) (replicaId : Int32) (w : Host) :
    w.Grows ks ms good ((h.fetch req replicaId).exec w).2 := by
  rw [PartitionHandle.fetch, exec_get_bind]
  refine exec_bind_related (fun _ _ _ => .trans) (.refl w) fun p w₁ _ => ?_
  refine exec_bind_related (fun _ _ _ => .trans) (.refl w₁) fun res w₂ _ => ?_
  split_ifs
  · refine exec_bind_related (fun _ _ _ => .trans) ?_ fun _ w₃ _ => .refl w₃
    have hc (leo : ℕ) : Admissible (good h.actor) (.updateReplicaLeo replicaId.toInt.toNat leo) := trivial
    exact grows_send hk (hc _) w₂
  · exact .refl w₂

/-- A fetch of any client. -/
lemma grows_handleFetch (elapsed : UInt32) (body : FetchRequest) (w : Host) :
    w.Grows (image.owners path) ms good ((handleFetch image elapsed body).exec w).2 := by
  refine exec_bind_related (fun _ _ _ => .trans) ?_ fun _ w' _ => .refl w'
  refine exec_mapM_related Host.Grows.refl (fun _ _ _ => .trans) (fun t _ w => ?_) w
  refine exec_bind_related (fun _ _ _ => .trans) ?_ fun _ w' _ => .refl w'
  refine exec_mapM_related Host.Grows.refl (fun _ _ _ => .trans) (fun p _ w => ?_) w
  rw [fetchPartition]
  split
  · next h hpart => exact grows_fetch (MetadataImage.mem_owners hpart) p body.replicaId w
  · exact .refl w

/-- A producer's request, whether it is answered or the handler panics. -/
lemma grows_handleProduce (hnodup : image.actors.Nodup) (elapsed : UInt32)
    {waiting : Host → TopicPartition → Waiting} {body : ProduceRequest}
    (hbody : AdmissibleRequest Q waiting body) (w : Host) :
    w.Grows (image.owners path) ms (image.good Q)
      ((handleProduce image elapsed waiting body).exec w).2 := by
  refine exec_bind_related (fun _ _ _ => .trans) ?_ fun _ w' _ => .refl w'
  refine exec_mapM_related Host.Grows.refl (fun _ _ _ => .trans) (fun t ht w => ?_) w
  refine exec_bind_related (fun _ _ _ => .trans) ?_ fun _ w' _ => .refl w'
  refine exec_mapM_related Host.Grows.refl (fun _ _ _ => .trans) (fun p hp w => ?_) w
  obtain ⟨⟨x, hx, hgood⟩, hothers⟩ := hbody t ht p hp
  rw [producePartition]
  split
  · next h hpart =>
    rw [exec_get_bind]
    apply grows_append (MetadataImage.mem_owners hpart)
    · exact ⟨x, hx, fun r hr => MetadataImage.good_of_partition hnodup hpart (hgood r hr)⟩
    · intro c hc
      exact (hothers w c hc).imp fun r => MetadataImage.good_of_partition hnodup hpart
  · exact .refl w

omit [Crc] in
lemma handleMetadata_host (order : MetadataOrder) (brokers : List BrokerConfig) (elapsed : UInt32)
    (w : Host) : ((handleMetadata order brokers elapsed image).exec w).2 = w := by
  have htrans (w₁ w₂ w₃ : Host) (h : w₂ = w₁) (h' : w₃ = w₂) : w₃ = w₁ := h'.trans h
  have hfold (es : List (Σ _ : TopicPartition, PartitionHandle)) (topics : TopicPartitions) :
      ((es.foldlM notePartition topics).exec w).2 = w := by
    induction es generalizing topics with
    | nil => rfl
    | cons e es ih =>
      rw [List.foldlM_cons]
      have hnote : ((notePartition topics e).exec w).2 = w := by
        rw [notePartition, exec_get_bind]
        exact exec_bind_related (R := fun w w' => w' = w) htrans rfl fun _ _ _ => rfl
      refine exec_bind_related (R := fun w w' => w' = w) htrans hnote fun topics' w₁ hrun => ?_
      rw [hrun] at hnote
      obtain rfl : w₁ = w := hnote
      exact ih topics'
  exact exec_bind_related (R := fun w w' => w' = w) htrans (hfold _ _) fun _ _ _ => rfl

end Requests

end Musil.Broker
