import Musil.Broker.Stocked

/-!
# What producers are told

The answer to a produce request gives the offset of each batch. For a request that does not wait for
replicas, the batch stands at that offset in the log of its partition, behind all batches that were
acknowledged before, and stays there.
-/

namespace Musil.Broker

open Network Proto Threaded Consumer
open Storage (Partition PartitionActor PartitionCommand)

/-- The records that a partition of the image holds. -/
def logOf (logs : ℕ → List Filled) (image : MetadataImage) (tp : TopicPartition) : List Record :=
  match image.partitions.lookup tp with
  | some h => (logs h.actor).flatMap Filled.recs
  | none => []

/-- The offset behind the log of a partition. -/
def BrokerState.logEnd (b : BrokerState) (tp : TopicPartition) : ℕ :=
  match b.image.partitions.lookup tp with
  | some h => match b.host.partition h.actor with
    | some p => p.state.logEndOffset
    | none => 0
  | none => 0

/-- What a producer knows of one of its batches. -/
structure Acknowledgement where
  partition : TopicPartition
  baseOffset : ℕ
  records : List Record
  deriving DecidableEq, Repr

def acknowledgePartition (topic : String) (p : ProducePartition) (res : ProducePartitionResponse) :
    List Acknowledgement :=
  if res.errorCode = .none then
    [⟨⟨topic, p.index⟩, res.baseOffset.toNat, p.records.intoRecords.getD []⟩]
  else []

def acknowledgeTopic (t : ProduceTopic) (r : ProduceTopicResponse) : List Acknowledgement :=
  (List.zipWith (acknowledgePartition t.topic) t.partitions r.partitionResponses).flatten

/-- What the client of a request that does not wait for replicas knows. -/
def acknowledge (req : FrameBody) (res : Option (Except HandleError Frame)) :
    List Acknowledgement :=
  match req, res with
  | .produce body, some (.ok res) =>
    match res.body with
    | .produceResponse resp =>
      if body.acks = .all then []
      else (List.zipWith acknowledgeTopic body.topics resp.responses).flatten
    | _ => []
  | _, _ => []

/-- The acknowledged batches stand in the logs at their offsets, one behind the other. -/
structure Placed (log : TopicPartition → List Record) (acks : List Acknowledgement) : Prop where
  stands : ∀ a ∈ acks, a.records <+: (log a.partition).drop a.baseOffset ∧
    a.baseOffset + a.records.length ≤ (log a.partition).length
  apart : acks.Pairwise fun a a' => a.partition = a'.partition →
    a.baseOffset + a.records.length ≤ a'.baseOffset

section Placed

variable {log log' : TopicPartition → List Record} {acks : List Acknowledgement}

lemma placed_nil (log : TopicPartition → List Record) : Placed log [] :=
  ⟨fun _ ha => absurd ha List.not_mem_nil, .nil⟩

lemma Placed.mono (h : Placed log acks) (hlog : ∀ tp, log tp <+: log' tp) : Placed log' acks := by
  refine ⟨fun a ha => ?_, h.apart⟩
  obtain ⟨hpre, hle⟩ := h.stands a ha
  exact ⟨hpre.trans ((hlog _).drop _), hle.trans (hlog _).length_le⟩

/-- A batch is acknowledged at the end of its log. -/
lemma Placed.concat (h : Placed log acks) (hlog : ∀ tp, log tp <+: log' tp) {a : Acknowledgement}
    (hbase : a.baseOffset = (log a.partition).length)
    (hrecords : a.records <+: (log' a.partition).drop a.baseOffset) : Placed log' (acks ++ [a]) := by
  have hmono := h.mono hlog
  constructor
  · rw [List.forall_mem_append, List.forall_mem_singleton]
    refine ⟨hmono.stands, hrecords, ?_⟩
    have hlen := hrecords.length_le
    have hle := (hlog a.partition).length_le
    rw [List.length_drop] at hlen
    omega
  · rw [List.pairwise_append]
    refine ⟨h.apart, List.pairwise_singleton _ _, fun a' ha' a'' ha'' heq => ?_⟩
    rw [List.mem_singleton.mp ha''] at heq ⊢
    rw [hbase, ← heq]
    exact (h.stands a' ha').2

end Placed

section LogOf

variable {logs logs' : ℕ → List Filled} {image image' : MetadataImage} {path topic : String}
  {i : UInt16} {h : PartitionHandle}

lemma logOf_eq (hpart : image.partition topic i = some h) :
    logOf logs image ⟨topic, i⟩ = (logs h.actor).flatMap Filled.recs := by
  rw [logOf, show image.partitions.lookup ⟨topic, i⟩ = some h from hpart]

/-- Logs only grow, while the partitions of the image keep their actors. -/
lemma logOf_isPrefix (hext : ∀ k ∈ image.owners path, logs k.2 <+: logs' k.2)
    (hlookup : ∀ q ∈ image.keys, image'.partitions.lookup q = image.partitions.lookup q)
    (tp : TopicPartition) : logOf logs image tp <+: logOf logs' image' tp := by
  rw [logOf]
  cases hpart : image.partitions.lookup tp with
  | none => exact List.nil_prefix
  | some h =>
    have hmem : tp ∈ image.keys := AList.lookup_isSome.mp (Option.isSome_of_mem hpart)
    have hpart' : image.partition tp.topicId tp.partitionId = some h := hpart
    rw [logOf, hlookup tp hmem, hpart]
    obtain ⟨rest, hrest⟩ := hext _ (MetadataImage.mem_owners hpart')
    dsimp only at hrest ⊢
    rw [← hrest, List.flatMap_append]
    exact List.prefix_append _ _

lemma BrokerState.Stocked.length_logOf {b : BrokerState} {Q : TopicPartition → Record → Prop}
    (hb : b.Stocked path Q logs) (tp : TopicPartition) :
    (logOf logs b.image tp).length = b.logEnd tp ∧ b.logEnd tp < 2 ^ 63 := by
  rw [logOf, BrokerState.logEnd]
  cases hpart : b.image.partitions.lookup tp with
  | none => exact ⟨rfl, Nat.two_pow_pos 63⟩
  | some h =>
    have hpart' : b.image.partition tp.topicId tp.partitionId = some h := hpart
    obtain ⟨p, hp, hstocks⟩ := hb.stocked.stocks _ (MetadataImage.mem_owners hpart')
    dsimp only
    rw [hp]
    exact ⟨hstocks.leo_eq.symm, hstocks.leo_lt⟩

end LogOf

/-! ### Appends that are answered -/

section Append

variable [Crc] {ks ms : List (Directory × ℕ)} {good : ℕ → Record → Prop} {logs : ℕ → List Filled}
  {w w' : Host} {h : PartitionHandle} {dir : Directory}

omit [Crc] in
lemma answerTo_appended (done : ℕ) (response : Storage.ProducePartitionResponse)
    (later : List Storage.Reply) :
    PartitionHandle.answerTo done (.appended done response :: later) = some response := by
  simp [PartitionHandle.answerTo]

omit [Crc] in
/-- No command reaches an actor that has ended. -/
lemma sends_of_ended {p : Partition} (hp : w.partition h.actor = some p) (hended : p.actor = none)
    {cs : List PartitionCommand} {replies : List (List Storage.Reply)}
    (hrun : (cs.mapM h.send).exec w = (some replies, w')) : replies = [] := by
  cases cs with
  | nil =>
    cases hrun
    rfl
  | cons c cs =>
    rw [List.mapM_cons] at hrun
    obtain ⟨r, w₁, hsend, -⟩ := exec_bind_eq_some.mp hrun
    rcases send_cases h c w with hnone | ⟨p', a, hp', ha, -⟩
    · rw [hnone] at hsend
      cases hsend
    · obtain rfl : p = p' := Option.some.inj (hp.symm.trans hp')
      cases hended.symm.trans ha

/-- The answer to an append that does not wait for replicas gives the offset at which its records
have been added. -/
lemma Host.Stocked.append_answered (hw : w.Stocked ks ms good logs) (hk : (dir, h.actor) ∈ ks)
    (x : Produced) (hx : ∀ r ∈ x.recs, good h.actor r) {acks : Storage.Acks} (hacks : acks ≠ .all)
    {done : ℕ} {others : List PartitionCommand}
    (hothers : ∀ c ∈ others, Admissible (good h.actor) c) {res : ProducePartitionResponse}
    (hrun : (h.append x.batch acks done others).exec w = (some res, w')) :
    res.baseOffset.toNat = ((logs h.actor).flatMap Filled.recs).length ∧
      ∃ logs', (∀ k ∈ ks, logs k.2 <+: logs' k.2) ∧ w'.Stocked ks ms good logs' ∧
        x.recs <+: ((logs' h.actor).flatMap Filled.recs).drop res.baseOffset.toNat := by
  obtain ⟨replies, w₁, hsend, hrun⟩ := exec_bind_eq_some.mp hrun
  obtain ⟨later, w₂, hlater, hrun⟩ := exec_bind_eq_some.mp hrun
  obtain ⟨response, hanswer, hrun⟩ := exec_orPanic_bind_eq_some.mp hrun
  cases hrun
  rcases send_cases h (.append x.batch acks done) w with hnone | ⟨p, a, hp, ha, hsome⟩
  · rw [hnone] at hsend
    cases hsend
  · rw [hsome] at hsend
    cases hsend
    obtain ⟨p', hp', hstocks⟩ := hw.stocks _ hk
    obtain rfl : p = p' := Option.some.inj (hp.symm.trans hp')
    rcases hstocks.append ha x acks done with ⟨-, hended, hreplies⟩ | ⟨hq, hreplies⟩
    · -- an actor that ends does not answer, and nothing is handled after it
      have hnil := sends_of_ended (Host.partition_put hp) hended hlater
      rw [hreplies, hnil] at hanswer
      cases hanswer
    · rw [hreplies hacks] at hanswer
      obtain rfl : a.response p.state.logEndOffset = response :=
        Option.some.inj ((answerTo_appended _ _ _).symm.trans hanswer)
      have hoffset : (UInt64.ofNat p.state.logEndOffset).toNat
          = ((logs h.actor).flatMap Filled.recs).length := by
        rw [UInt64.toNat_ofNat_of_lt' (hstocks.leo_lt.trans (by decide)), hstocks.leo_eq]
      refine ⟨hoffset, ?_⟩
      have hgood : ∀ r ∈ (logs h.actor ++ [Storage.stored p.state x.toFilled]).flatMap Filled.recs,
          good h.actor r := by
        rw [List.flatMap_append, List.forall_mem_append, List.flatMap_singleton, recs_stored]
        exact ⟨hw.good _ hk, hx⟩
      have hw₁ := hw.put hk hp (Option.isSome_of_mem ha) hq hgood
      obtain ⟨-, logs', hext, hw'⟩ := grows_sends hk hothers _ _ hw₁
      rw [hlater] at hw'
      refine ⟨logs', fun k hkmem => (prefix_update (List.prefix_append _ _) k.2).trans (hext k hkmem),
        hw', ?_⟩
      obtain ⟨rest, hrest⟩ := hext _ hk
      dsimp only at hrest
      rw [Function.update_self] at hrest
      show x.recs <+: ((logs' h.actor).flatMap Filled.recs).drop
        (UInt64.ofNat p.state.logEndOffset).toNat
      rw [hoffset, ← hrest, List.append_assoc, List.flatMap_append, List.drop_left,
        List.flatMap_append, List.flatMap_singleton, recs_stored]
      exact List.prefix_append _ _

end Append

/-! ### Produce requests -/

section Produce

variable [Crc] {image : MetadataImage} {path : String} {ms : List (Directory × ℕ)}
  {Q : TopicPartition → Record → Prop} {logs : ℕ → List Filled} {w w' : Host}
  {cs : List Acknowledgement}

/-- The logs go on from `logs`, with the acknowledged batches in them. -/
def Acknowledged (image : MetadataImage) (path : String) (ms : List (Directory × ℕ))
    (Q : TopicPartition → Record → Prop) (logs : ℕ → List Filled) (w : Host)
    (acks : List Acknowledgement) : Prop :=
  ∃ logs', (∀ k ∈ image.owners path, logs k.2 <+: logs' k.2) ∧
    w.Stocked (image.owners path) ms (image.good Q) logs' ∧ Placed (logOf logs' image) acks

lemma acknowledged_partition {body : ProduceRequest} {waiting : Host → TopicPartition → Waiting}
    (hbody : AdmissibleRequest Q waiting body) (hacks : body.acks ≠ .all) {t : ProduceTopic}
    (ht : t ∈ body.topics) {p : ProducePartition} (hp : p ∈ t.partitions)
    {res : ProducePartitionResponse}
    (hrun : (producePartition image body.acks waiting t.topic p).exec w = (some res, w'))
    (hw : Acknowledged image path ms Q logs w cs) :
    Acknowledged image path ms Q logs w' (cs ++ acknowledgePartition t.topic p res) := by
  obtain ⟨logs₁, hext₁, hw₁, hplaced⟩ := hw
  obtain ⟨⟨x, hx, hgood⟩, hothers⟩ := hbody t ht p hp
  rw [producePartition] at hrun
  cases hpart : image.partition t.topic p.index with
  | none =>
    rw [hpart] at hrun
    cases hrun
    exact ⟨logs₁, hext₁, hw₁, (List.append_nil cs).symm ▸ hplaced⟩
  | some h =>
    rw [hpart] at hrun
    dsimp only at hrun
    rw [exec_get_bind, ← hx] at hrun
    have hnodup := hw₁.owned.actors_nodup
    have hok : res.errorCode = .none := by
      obtain ⟨replies, w₂, -, hrun⟩ := exec_bind_eq_some.mp hrun
      obtain ⟨later, w₃, -, hrun⟩ := exec_bind_eq_some.mp hrun
      obtain ⟨response, -, hrun⟩ := exec_orPanic_bind_eq_some.mp hrun
      cases hrun
      rfl
    obtain ⟨hoffset, logs₂, hext₂, hw₂, hrecs⟩ := hw₁.append_answered
      (MetadataImage.mem_owners hpart) x
      (fun r hr => MetadataImage.good_of_partition hnodup hpart (hgood r hr)) hacks
      (fun c hc => (hothers w c hc).imp fun r => MetadataImage.good_of_partition hnodup hpart) hrun
    refine ⟨logs₂, fun k hk => (hext₁ k hk).trans (hext₂ k hk), hw₂, ?_⟩
    rw [acknowledgePartition, if_pos hok]
    refine hplaced.concat (logOf_isPrefix hext₂ fun _ _ => rfl) ?_ ?_
    · rw [logOf_eq hpart]
      exact hoffset
    · rw [logOf_eq hpart, ← hx, x.carries.intoRecords_eq x.sized]
      exact hrecs

lemma acknowledged_handleProduce {body : ProduceRequest}
    {waiting : Host → TopicPartition → Waiting} {elapsed : UInt32} {resp : ProduceResponse}
    (hbody : AdmissibleRequest Q waiting body) (hacks : body.acks ≠ .all)
    (hrun : (handleProduce image elapsed waiting body).exec w = (some resp, w'))
    (hw : Acknowledged image path ms Q logs w cs) :
    Acknowledged image path ms Q logs w'
      (cs ++ (List.zipWith acknowledgeTopic body.topics resp.responses).flatten) := by
  obtain ⟨responses, rfl, hpass⟩ := pass_of_mapM_bind hrun
  refine hpass.gather hw fun w₁ cs₁ hw₁ t ht r w₂ hr => ?_
  obtain ⟨parts, rfl, hparts⟩ := pass_of_mapM_bind hr
  exact hparts.gather hw₁ fun w₃ cs₃ hw₃ p hp res w₄ hres =>
    acknowledged_partition hbody hacks ht hp hres hw₃

end Produce

/-! ### Requests of any kind -/

section Handle

variable [Crc] {path : String} {Q : TopicPartition → Record → Prop} {logs : ℕ → List Filled}
  {b : BrokerState} {acks : List Acknowledgement} {req : Frame}

omit [Crc] in
/-- Only the answer to a produce request acknowledges batches, if it does not wait for replicas. -/
lemma acknowledge_cases (req : FrameBody) (res : Option (Except HandleError Frame)) :
    acknowledge req res = [] ∨ ∃ body resp frame, req = .produce body ∧ res = some (.ok frame) ∧
      frame.body = .produceResponse resp ∧ body.acks ≠ .all ∧
        acknowledge req res = (List.zipWith acknowledgeTopic body.topics resp.responses).flatten := by
  rw [acknowledge.eq_def]
  split
  · next body frame =>
    split
    · next resp hresp =>
      by_cases hacks : body.acks = .all
      · exact .inl (if_pos hacks)
      · exact .inr ⟨body, resp, frame, rfl, rfl, hresp, hacks, if_neg hacks⟩
    · exact .inl rfl
  · exact .inl rfl

/-- What the clients have been told stays true, and what the answer to this request tells is. -/
lemma BrokerState.Stocked.acknowledge (h : b.Stocked path Q logs)
    (hplaced : Placed (logOf logs b.image) acks) (brokers : List BrokerConfig) {env : Surroundings}
    (hreq : b.Permits path Q env req) :
    ∃ logs', (∀ tp, logOf logs b.image tp <+: logOf logs' (b.handle brokers env req).2.image tp) ∧
      (b.handle brokers env req).2.Stocked path Q logs' ∧
      Placed (logOf logs' (b.handle brokers env req).2.image)
        (acks ++ acknowledge req.body (b.handle brokers env req).1) := by
  rcases acknowledge_cases req.body (b.handle brokers env req).1 with hnil |
    ⟨body, resp, frame, hbody, hres, hresp, hacks, heq⟩
  · obtain ⟨hlookup, logs', hext, hstocked⟩ := h.handle brokers hreq
    have hgrown := logOf_isPrefix hext hlookup
    rw [hnil, List.append_nil]
    exact ⟨logs', hgrown, hstocked, hplaced.mono hgrown⟩
  · obtain ⟨size, header, req⟩ := req
    obtain rfl : req = .produce body := hbody
    obtain ⟨resp', hrun, hframe⟩ := reply_eq_ok hres
    obtain rfl : resp' = resp := by
      rw [hframe] at hresp
      exact FrameBody.produceResponse.inj hresp
    rw [heq]
    obtain ⟨logs', hext, hstocked, hplaced'⟩ := acknowledged_handleProduce hreq hacks
      (exec_eq_of_fst hrun) ⟨logs, fun _ _ => List.prefix_rfl, h.stocked, hplaced⟩
    obtain ⟨logs'', -, hgrown⟩ := h.grow
      (grows_handleProduce h.actors_nodup env.elapsed hreq b.host)
    exact ⟨logs', logOf_isPrefix hext fun _ _ => rfl, ⟨hstocked, h.path_eq, h.ids, hgrown.clean⟩,
      hplaced'⟩

end Handle

end Musil.Broker
