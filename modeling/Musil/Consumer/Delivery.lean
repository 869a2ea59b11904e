import Musil.Broker.Acknowledge
import Musil.Broker.Remote
import Musil.Consumer.ConsumerActor
import Musil.Producer.Admissible

/-!
# From producers to a consumer

Clients of a broker produce to its topics and create new ones while a consumer reads one of them.
What a producer has been told of a batch, and what the consumer has sent on, are both parts of one
log for each partition: the batch stands in it at the offset that the producer knows, and the
consumer has sent on the records of the log in their order, without a gap and none of them twice.

A request is one step. It does what requests for its single partitions do one after the other, so
that requests whose handlers take turns between partitions are runs as well.
-/

namespace Musil.Consumer

open Network Proto Broker Bytes Threaded Run

/-! ### A consumer and the logs -/

/-- The consumer has sent on the records of each of its partitions from its start on, and is at the
offset behind them. -/
structure ConsumerActor.Follows (log : UInt16 → List Record) (c : ConsumerActor) : Prop where
  known : ∀ r ∈ c.sent, r.topic = c.cfg.topic ∧ (c.partitions.lookup r.partition).isSome
  partition : ∀ i st, c.partitions.lookup i = some st → c.cfg.start i ≤ (log i).length ∧
    c.sentOf i <+: (log i).drop (c.cfg.start i) ∧
    st.commitOffset = c.cfg.start i + (c.sentOf i).length

/-- The offset of no partition has gone back, and those of the list have gone on unless they were at
the end of their logs. -/
structure ConsumerActor.Goes (log : UInt16 → List Record) (is : List UInt16) (c c' : ConsumerActor) :
    Prop where
  cfg_eq : c'.cfg = c.cfg
  commit : ∀ i st, c.partitions.lookup i = some st → ∃ st', c'.partitions.lookup i = some st' ∧
    st.commitOffset ≤ st'.commitOffset ∧
      (i ∈ is → st.commitOffset < (log i).length → st.commitOffset < st'.commitOffset)

/-- What a response has for a partition: the next records of its log, and some if there are any. -/
structure Continues (log : UInt16 → List Record) (a : UInt16 × UInt64) (res : PartitionResponse) :
    Prop where
  index : res.partitionIndex.toUInt16 = a.1
  records : ∃ records, consumerRecords res.records = some records ∧
    records <+: (log a.1).drop a.2.toNat ∧ (a.2.toNat < (log a.1).length → records ≠ [])

namespace ConsumerActor

variable {c c' c'' : ConsumerActor} {log log' : UInt16 → List Record} {i : UInt16}
  {is js : List UInt16} {st : ConsumerPartitionState} {records : List Record}

lemma Follows.mono (h : c.Follows log) (hlog : ∀ i, log i <+: log' i) : c.Follows log' := by
  refine ⟨h.known, fun i st hi => ?_⟩
  obtain ⟨hstart, hsent, hcommit⟩ := h.partition i st hi
  exact ⟨hstart.trans (hlog i).length_le, hsent.trans ((hlog i).drop _), hcommit⟩

lemma Follows.commit_le (h : c.Follows log) (hi : c.partitions.lookup i = some st) :
    st.commitOffset ≤ (log i).length := by
  obtain ⟨hstart, hsent, hcommit⟩ := h.partition i st hi
  have hlen := hsent.length_le
  rw [List.length_drop] at hlen
  omega

/-- The records at the offset of a partition are sent on. -/
lemma Follows.advance (h : c.Follows log) (hi : c.partitions.lookup i = some st)
    (highWatermark : ℕ) (hrecords : records <+: (log i).drop st.commitOffset) :
    (c.advance c.cfg.topic i st highWatermark records).Follows log := by
  constructor
  · intro r hr
    rcases List.mem_append.mp hr with hr | hr
    · obtain ⟨htopic, hsome⟩ := h.known r hr
      refine ⟨htopic, ?_⟩
      rcases eq_or_ne r.partition i with heq | hne
      · rw [heq, lookup_advance]
        rfl
      · rwa [lookup_advance_of_ne c.cfg.topic highWatermark hne]
    · obtain ⟨r', -, rfl⟩ := List.mem_map.mp hr
      refine ⟨rfl, ?_⟩
      rw [lookup_advance]
      rfl
  · intro j st' hj
    rcases eq_or_ne j i with rfl | hne
    · obtain ⟨hstart, ⟨rest, hrest⟩, hcommit⟩ := h.partition j st hi
      rw [lookup_advance] at hj
      cases hj
      rw [sentOf_advance]
      have hdrop : rest = (log j).drop st.commitOffset := by
        rw [hcommit, ← List.drop_drop, ← hrest, List.drop_left]
      refine ⟨hstart, ?_, ?_⟩
      · show c.sentOf j ++ records <+: (log j).drop (c.cfg.start j)
        rw [← hrest, List.prefix_append_right_inj, hdrop]
        exact hrecords
      · rw [List.length_append, ← Nat.add_assoc]
        exact congrArg (· + records.length) hcommit
    · rw [lookup_advance_of_ne c.cfg.topic highWatermark hne] at hj
      rw [sentOf_advance_of_ne c.cfg.topic highWatermark hne]
      exact h.partition j st' hj

lemma Goes.refl (c : ConsumerActor) : c.Goes log [] c :=
  ⟨rfl, fun _ st hi => ⟨st, hi, le_rfl, fun hmem => absurd hmem List.not_mem_nil⟩⟩

lemma Goes.trans (h : c.Goes log is c') (h' : c'.Goes log js c'') : c.Goes log (is ++ js) c'' := by
  refine ⟨h'.cfg_eq.trans h.cfg_eq, fun i st hi => ?_⟩
  obtain ⟨st', hi', hle, hlt⟩ := h.commit i st hi
  obtain ⟨st'', hi'', hle', hlt'⟩ := h'.commit i st' hi'
  refine ⟨st'', hi'', hle.trans hle', fun hmem hbehind => ?_⟩
  rcases List.mem_append.mp hmem with hmem | hmem
  · exact (hlt hmem hbehind).trans_le hle'
  · rcases hle.eq_or_lt with heq | hbefore
    · rw [heq] at hbehind ⊢
      exact hlt' hmem hbehind
    · exact hbefore.trans_le hle'

lemma Goes.of_subset (h : c.Goes log is c') (hsub : js ⊆ is) : c.Goes log js c' := by
  refine ⟨h.cfg_eq, fun i st hi => ?_⟩
  obtain ⟨st', hi', hle, hlt⟩ := h.commit i st hi
  exact ⟨st', hi', hle, fun hmem => hlt (hsub hmem)⟩

lemma goes_advance (hi : c.partitions.lookup i = some st) (topic : String) (highWatermark : ℕ)
    (hne : st.commitOffset < (log i).length → records ≠ []) :
    c.Goes log [i] (c.advance topic i st highWatermark records) := by
  refine ⟨rfl, fun j st' hj => ?_⟩
  rcases eq_or_ne j i with rfl | hji
  · obtain rfl : st = st' := Option.some.inj (hi.symm.trans hj)
    refine ⟨_, lookup_advance topic highWatermark, Nat.le_add_right _ _, fun _ hbehind => ?_⟩
    exact Nat.lt_add_of_pos_right (List.length_pos_of_ne_nil (hne hbehind))
  · refine ⟨st', ?_, le_rfl, fun hmem => absurd (List.mem_singleton.mp hmem) hji⟩
    rw [lookup_advance_of_ne topic highWatermark hji]
    exact hj

/-- A response to a fetch from the offsets that the consumer is at. -/
lemma receive_partitions {as : List (UInt16 × UInt64)} {ress : List PartitionResponse}
    (hall : List.Forall₂ (Continues log) as ress) (hnodup : (as.map Prod.fst).Nodup)
    (hc : c.Follows log) (has : ∀ a ∈ as, ∃ st, c.partitions.lookup a.1 = some st ∧
      st.commitOffset = a.2.toNat) :
    ∃ ns c', (ress.mapM (receivePartition c.cfg.topic)).exec c = (some ns, c') ∧ c'.Follows log ∧
      c.Goes log (as.map Prod.fst) c' := by
  induction hall generalizing c with
  | nil => exact ⟨[], c, rfl, hc, .refl c⟩
  | @cons a res as ress head _ ih =>
    obtain ⟨hindex, records, hrecords, hpre, hne⟩ := head
    rw [List.forall_mem_cons] at has
    rw [List.map_cons, List.nodup_cons] at hnodup
    obtain ⟨⟨st, hst, hcommit⟩, has⟩ := has
    rw [← hcommit] at hpre hne
    have hexec := receivePartition_exec c.cfg.topic (p := res) (hindex.symm ▸ hst) hrecords
    rw [hindex] at hexec
    -- the entries that follow are for other partitions
    have has' : ∀ a' ∈ as, ∃ st', (c.advance c.cfg.topic a.1 st res.highWatermark.toNat
        records).partitions.lookup a'.1 = some st' ∧ st'.commitOffset = a'.2.toNat := by
      intro a' ha'
      rw [lookup_advance_of_ne]
      · exact has a' ha'
      · intro heq
        exact hnodup.1 (heq ▸ List.mem_map_of_mem ha')
    obtain ⟨ns, c', hrun, hfollows, hgoes⟩ :=
      ih hnodup.2 (hc.advance hst res.highWatermark.toNat hpre) has'
    refine ⟨records.length :: ns, c', ?_, hfollows, ?_⟩
    · rw [List.mapM_cons, exec_bind, hexec]
      dsimp only
      rw [exec_bind]
      have hrun' : (ress.mapM (receivePartition c.cfg.topic)).exec
          (c.advance c.cfg.topic a.1 st res.highWatermark.toNat records) = (some ns, c') := hrun
      rw [hrun']
      rfl
    · exact (goes_advance hst c.cfg.topic res.highWatermark.toNat hne).trans hgoes

end ConsumerActor

/-! ### Fetches -/

section Fetch

variable [Crc] {path topic : String} {Q : TopicPartition → Record → Prop} {logs : ℕ → List Filled}
  {b : BrokerState}

/-- A fetch for one partition returns the records at its offset. -/
lemma continues_fetch (h : b.Stocked path Q logs) {a : UInt16 × UInt64}
    (ha : a.2.toNat ≤ (logOf logs b.image ⟨topic, a.1⟩).length) :
    ∃ res, (fetchPartition b.image (-1) topic ⟨a.1.toUInt32, a.2, 4096, 0⟩).exec b.host
        = (some res, b.host) ∧ Continues (fun i => logOf logs b.image ⟨topic, i⟩) a res := by
  have hindex : a.1.toUInt32.toUInt16 = a.1 := UInt16.toUInt16_toUInt32 a.1
  rw [fetchPartition, hindex]
  cases hpart : b.image.partition topic a.1 with
  | none =>
    have hlog : logOf logs b.image ⟨topic, a.1⟩ = [] := by
      rw [logOf, show b.image.partitions.lookup ⟨topic, a.1⟩ = none from hpart]
    refine ⟨_, rfl, hindex, [], rfl, List.nil_prefix, fun hlt : a.2.toNat < List.length _ => ?_⟩
    rw [hlog] at hlt
    exact absurd hlt (Nat.not_lt_zero _)
  | some handle =>
    have hlog : logOf logs b.image ⟨topic, a.1⟩ = (logs handle.actor).flatMap Filled.recs := by
      rw [logOf, show b.image.partitions.lookup ⟨topic, a.1⟩ = some handle from hpart]
    obtain ⟨p, hp, hstocks⟩ := h.stocked.stocks _ (MetadataImage.mem_owners hpart)
    have hid : handle.id = a.1.toUInt32 := h.ids _ (MetadataImage.mem_entries hpart)
    rw [hlog, ← hstocks.leo_eq] at ha
    obtain ⟨res, records, hfetch, hrecords, hpre, hne⟩ := System.exists_fetch hstocks.shows
      hstocks.decodable handle.id.toNat ⟨a.2, 4096⟩ ha
    obtain ⟨bs, rfl⟩ := Storage.PartitionState.fetch_eq_some hfetch
    refine ⟨⟨UInt32.ofNat handle.id.toNat, .none, UInt64.ofNat p.state.highWatermark,
      UInt64.ofNat p.state.logEndOffset, bs⟩, ?_, ?_, records, hrecords, ?_, ?_⟩
    · dsimp only
      rw [PartitionHandle.fetch, exec_get_bind, hp, exec_bind, exec_orPanic]
      dsimp only
      rw [exec_bind, exec_orPanic, hfetch]
      rfl
    · rw [hid]
      show (UInt32.ofNat a.1.toUInt32.toNat).toUInt16 = a.1
      rw [UInt32.ofNat_toNat]
      exact hindex
    · rw [hlog]
      exact hpre
    · rw [hlog, ← hstocks.leo_eq]
      exact hne

/-- The broker answers a consumer that is not ahead of any log. -/
lemma handle_fetch (h : b.Stocked path Q logs) (brokers : List BrokerConfig) (env : Surroundings)
    (correlationId : UInt32) {as : List (UInt16 × UInt64)}
    (has : ∀ a ∈ as, a.2.toNat ≤ (logOf logs b.image ⟨topic, a.1⟩).length) :
    ∃ ress, b.handle brokers env (fetchRequest correlationId topic as)
        = (some (.ok (fetchFrame (fetchRequest correlationId topic as).header
            ⟨env.elapsed, [⟨topic, ress⟩]⟩)), b) ∧
      List.Forall₂ (Continues fun i => logOf logs b.image ⟨topic, i⟩) as ress := by
  obtain ⟨ress, hrun, hall⟩ := exists_mapM_of_kept (f := fun a : UInt16 × UInt64 =>
    fetchPartition b.image (-1) topic ⟨a.1.toUInt32, a.2, 4096, 0⟩) fun a ha =>
      continues_fetch h (has a ha)
  refine ⟨ress, ?_, hall⟩
  set parts : List FetchPartition := as.map fun a => ⟨a.1.toUInt32, a.2, 4096, 0⟩ with hparts
  have hparts' : (parts.mapM (fetchPartition b.image (-1) topic)).exec b.host
      = (some ress, b.host) := by
    rw [hparts, List.mapM_map]
    exact hrun
  have htopic : (fetchTopic b.image (-1) ⟨topic, parts⟩).exec b.host
      = (some ⟨topic, ress⟩, b.host) := by
    rw [fetchTopic, exec_bind, hparts']
    rfl
  have hfetch : (handleFetch b.image env.elapsed ⟨-1, 4096, [⟨topic, parts⟩]⟩).exec b.host
      = (some ⟨env.elapsed, [⟨topic, ress⟩]⟩, b.host) := by
    rw [handleFetch, List.mapM_cons, exec_bind, exec_bind, htopic]
    rfl
  show b.reply (fetchFrame _)
    ((handleFetch b.image env.elapsed ⟨-1, 4096, [⟨topic, parts⟩]⟩).exec b.host) = _
  rw [hfetch]
  rfl

/-- One turn of the offset loop of a consumer whose request is answered. -/
lemma receive_fetch (h : b.Stocked path Q logs) (brokers : List BrokerConfig) (env : Surroundings)
    (correlationId : UInt32) {c : ConsumerActor}
    (hc : c.Follows fun i => logOf logs b.image ⟨c.cfg.topic, i⟩) {as : List (UInt16 × UInt64)}
    (has : as.Perm c.offsets) :
    ∃ resp total c', b.handle brokers env (fetchRequest correlationId c.cfg.topic as)
        = (some (.ok (fetchFrame (fetchRequest correlationId c.cfg.topic as).header resp)), b) ∧
      (ConsumerActor.receive resp).exec c = (some total, c') ∧
      (c'.Follows fun i => logOf logs b.image ⟨c.cfg.topic, i⟩) ∧
      c.Goes (fun i => logOf logs b.image ⟨c.cfg.topic, i⟩) c.partitions.keys c' := by
  have hkeys : (as.map Prod.fst).Perm c.partitions.keys := by
    rw [← c.map_fst_offsets]
    exact has.map Prod.fst
  have hoffset : ∀ a ∈ as, ∃ st, c.partitions.lookup a.1 = some st ∧ st.commitOffset = a.2.toNat := by
    intro a ha
    obtain ⟨e, he, rfl⟩ := List.mem_map.mp (has.mem_iff.mp ha)
    have hst : c.partitions.lookup e.1 = some e.2 := AList.mem_lookup_iff.mpr he
    obtain ⟨hlength, hend⟩ := h.length_logOf ⟨c.cfg.topic, e.1⟩
    have hlt := (hc.commit_le hst).trans_lt (hlength ▸ hend)
    exact ⟨e.2, hst, (UInt64.toNat_ofNat_of_lt' (hlt.trans (by decide))).symm⟩
  have hle : ∀ a ∈ as, a.2.toNat ≤ (logOf logs b.image ⟨c.cfg.topic, a.1⟩).length := by
    intro a ha
    obtain ⟨st, hst, hcommit⟩ := hoffset a ha
    rw [← hcommit]
    exact hc.commit_le hst
  obtain ⟨ress, hhandle, hall⟩ := handle_fetch h brokers env correlationId hle
  obtain ⟨ns, c', hrun, hfollows, hgoes⟩ := ConsumerActor.receive_partitions hall
    (hkeys.nodup_iff.mpr c.partitions.nodupKeys) hc hoffset
  refine ⟨_, [ns.sum].sum, c', hhandle, ?_, hfollows, hgoes.of_subset hkeys.symm.subset⟩
  rw [ConsumerActor.receive, List.mapM_cons, exec_bind, exec_bind, exec_bind, hrun]
  rfl

end Fetch

/-! ### Clients and consumers of one broker -/

/-- A consumer and whether its loop still runs. -/
structure Reader where
  actor : ConsumerActor
  running : Bool

/-- A broker with the consumers that have been started, and what its producers have been told. -/
structure Delivery where
  broker : BrokerState
  readers : List Reader
  acknowledged : List Acknowledgement

inductive DeliveryEvent where
  /-- A client sends a request. -/
  | call (env : Surroundings) (req : Frame)
  /-- A consumer is started. -/
  | join (cfg : ConsumerConfig) (env : Surroundings) (correlationId : UInt32)
  /-- Consumer `n` fetches from its partitions, in the order of its map; the response may get lost. -/
  | poll (n : ℕ) (env : Surroundings) (correlationId : UInt32)
    (order : List (UInt16 × UInt64) → List (UInt16 × UInt64)) (arrives : Bool)

/-- The answer to a metadata request, over a connection that ends where there is none. -/
def metadataOf (res : Option (Except HandleError Frame)) : Except RequestError MetadataResponse :=
  match res with
  | some (.ok frame) => match frame.body with
    | .metadataResponse metadata => .ok metadata
    | _ => .error .formatErr
  | _ => .error .ioErr

/-- The answer to a fetch request. -/
def fetchedOf (res : Option (Except HandleError Frame)) : Except RequestError FetchResponse :=
  match res with
  | some (.ok frame) => match frame.body with
    | .fetchResponse response => .ok response
    | _ => .error .formatErr
  | _ => .error .ioErr

lemma fetchedOf_fetchFrame (header : RequestHeader) (resp : FetchResponse) :
    fetchedOf (some (.ok (fetchFrame header resp))) = .ok resp := rfl

/-- A turn of the offset loop. -/
def Reader.turn (r : Reader) (res : Except RequestError FetchResponse) : Reader :=
  match res with
  | .error _ => r
  | .ok response =>
    let (total, actor) := (ConsumerActor.receive response).exec r.actor
    ⟨actor, total.isSome⟩

namespace Delivery

variable [Crc]

def step (brokers : List BrokerConfig) (s : Delivery) : DeliveryEvent → Delivery
  | .call env req =>
    let (res, broker) := s.broker.handle brokers env req
    { s with
      broker := broker
      acknowledged := s.acknowledged ++ acknowledge req.body res }
  | .join cfg env correlationId =>
    let (res, broker) := s.broker.handle brokers env (metadataRequest correlationId)
    match ConsumerActor.new cfg (metadataOf res) with
    | .ok actor => { s with broker := broker, readers := s.readers ++ [⟨actor, true⟩] }
    | .error _ => { s with broker := broker }
  | .poll n env correlationId order arrives =>
    match s.readers[n]? with
    | none => s
    | some r =>
      if r.running then
        let (res, broker) := s.broker.handle brokers env
          (fetchRequest correlationId r.actor.cfg.topic (order r.actor.offsets))
        if arrives then
          { s with broker := broker, readers := s.readers.set n (r.turn (fetchedOf res)) }
        else { s with broker := broker }
      else s

/-- Requests for new topics are for directories of their own, and producers send the records that
`Q` allows; a consumer with an offset of its own begins within the log. -/
def Allowed (path : String) (Q : TopicPartition → Record → Prop) (s : Delivery) :
    DeliveryEvent → Prop
  | .call env req => s.broker.Permits path Q env req
  | .join cfg _ _ => ∀ i ∈ cfg.partition, cfg.baseOffset.toNat ≤ s.broker.logEnd ⟨cfg.topic, i⟩
  | .poll _ _ _ order _ => ∀ as, (order as).Perm as

omit [Crc] in
/-- The broker is started on the files of the host. -/
def started (path : String) (w : Host) : Delivery :=
  ⟨(BrokerState.down w).restart path .asKept, [], []⟩

end Delivery

/-! ### One step for a request -/

section Steps

variable [Crc] (brokers : List BrokerConfig) (env : Surroundings)

/-- The host has changed, and a producer has been told more. -/
def Delivery.put (s : Delivery) (w : Host) (acks : List Acknowledgement) : Delivery :=
  { s with broker := { s.broker with host := w }, acknowledged := s.acknowledged ++ acks }

/-- What the client that wants these acknowledgements learns. -/
def told (acks : Storage.Acks) (as : List Acknowledgement) : List Acknowledgement :=
  if acks = .all then [] else as

/-- The request for one partition of a request to produce. -/
def producePart (req : Frame) (body : ProduceRequest) (topic : String) (p : ProducePartition) :
    Frame :=
  { req with body := .produce { body with topics := [⟨topic, [p]⟩] } }

/-- The request for one partition of a request to fetch. -/
def fetchPart (req : Frame) (body : FetchRequest) (topic : String) (p : FetchPartition) : Frame :=
  { req with body := .fetch { body with topics := [⟨topic, [p]⟩] } }

/-- The requests for the partitions of a request, in its order. -/
def partsOf (req : Frame) : List Frame :=
  match req.body with
  | .produce body => body.topics.flatMap fun t => t.partitions.flatMap fun p =>
    [producePart req body t.topic p]
  | .fetch body => body.topics.flatMap fun t => t.partitions.flatMap fun p =>
    [fetchPart req body t.topic p]
  | _ => [req]

variable {req : Frame} {topic : String} {s : Delivery}

omit [Crc] in
lemma told_append (acks : Storage.Acks) (as as' : List Acknowledgement) :
    told acks (as ++ as') = told acks as ++ told acks as' := by
  rw [told, told, told]
  split_ifs
  · rfl
  · rfl

omit [Crc] in
lemma told_flatten {α β : Type} (acks : Storage.Acks) (g : α → β → List Acknowledgement)
    (as : List α) (bs : List β) : (List.zipWith (fun a b => told acks (g a b)) as bs).flatten
      = told acks (List.zipWith g as bs).flatten := by
  induction as generalizing bs with
  | nil => exact (ite_self _).symm
  | cons a as ih =>
    cases bs with
    | nil => exact (ite_self _).symm
    | cons b bs =>
      rw [List.zipWith_cons_cons, List.zipWith_cons_cons, List.flatten_cons, List.flatten_cons,
        told_append, ih]

/-- Calls for all elements of a pass, one after the other. -/
lemma run_calls {α β : Type} {R : Host → α → β → Host → Prop} {f : α → List Frame}
    {g : α → β → List Acknowledgement} (hstep : ∀ w a b w' acks, R w a b w' →
      run (Delivery.step brokers) (s.put w acks) ((f a).map (.call env)) = s.put w' (acks ++ g a b))
    {w w' : Host} {as : List α} {bs : List β} (h : Pass R w as bs w')
    (acks : List Acknowledgement) :
    run (Delivery.step brokers) (s.put w acks) ((as.flatMap f).map (.call env))
      = s.put w' (acks ++ (List.zipWith g as bs).flatten) := by
  induction h generalizing acks with
  | nil w =>
    rw [List.zipWith_nil_right, List.flatten_nil, List.append_nil]
    rfl
  | cons head _ ih =>
    rw [List.flatMap_cons, List.map_append, run_append, hstep _ _ _ _ _ head, ih,
      List.zipWith_cons_cons, List.flatten_cons, List.append_assoc]

lemma run_producePart {body : ProduceRequest} (w : Host) (p : ProducePartition)
    (res : ProducePartitionResponse) (w' : Host) (acks : List Acknowledgement)
    (h : (producePartition s.broker.image body.acks env.waiting topic p).exec w = (some res, w')) :
    run (Delivery.step brokers) (s.put w acks) ([producePart req body topic p].map (.call env))
      = s.put w' (acks ++ told body.acks (acknowledgePartition topic p res)) := by
  have hrun : (handleProduce s.broker.image env.elapsed env.waiting
      { body with topics := [⟨topic, [p]⟩] }).exec w
        = (some ⟨env.elapsed, [⟨topic, [res]⟩]⟩, w') := by
    rw [handleProduce, List.mapM_cons, exec_bind, exec_bind, produceTopic, exec_bind,
      List.mapM_cons, exec_bind, h]
    rfl
  have hhandle : (s.put w acks).broker.handle brokers env (producePart req body topic p)
      = (some (.ok (Broker.produceFrame req.header ⟨env.elapsed, [⟨topic, [res]⟩]⟩)),
        { s.broker with host := w' }) := by
    show (s.put w acks).broker.reply _ ((handleProduce s.broker.image env.elapsed env.waiting
      { body with topics := [⟨topic, [p]⟩] }).exec w) = _
    rw [hrun]
    rfl
  rw [List.map_singleton, run_cons, run_nil, Delivery.step, hhandle]
  simp only [Delivery.put, acknowledge, producePart, Broker.produceFrame, told, acknowledgeTopic,
    List.zipWith_cons_cons, List.zipWith_nil_right, List.flatten_cons, List.flatten_nil,
    List.append_nil, List.append_assoc]

lemma run_fetchPart {body : FetchRequest} (w : Host) (p : FetchPartition) (res : PartitionResponse)
    (w' : Host) (acks : List Acknowledgement)
    (h : (fetchPartition s.broker.image body.replicaId topic p).exec w = (some res, w')) :
    run (Delivery.step brokers) (s.put w acks) ([fetchPart req body topic p].map (.call env))
      = s.put w' (acks ++ []) := by
  have hrun : (handleFetch s.broker.image env.elapsed { body with topics := [⟨topic, [p]⟩] }).exec w
      = (some ⟨env.elapsed, [⟨topic, [res]⟩]⟩, w') := by
    rw [handleFetch, List.mapM_cons, exec_bind, exec_bind, fetchTopic, exec_bind, List.mapM_cons,
      exec_bind, h]
    rfl
  have hhandle : (s.put w acks).broker.handle brokers env (fetchPart req body topic p)
      = (some (.ok (fetchFrame req.header ⟨env.elapsed, [⟨topic, [res]⟩]⟩)),
        { s.broker with host := w' }) := by
    show (s.put w acks).broker.reply _ ((handleFetch s.broker.image env.elapsed
      { body with topics := [⟨topic, [p]⟩] }).exec w) = _
    rw [hrun]
    rfl
  rw [List.map_singleton, run_cons, run_nil, Delivery.step, hhandle]
  simp only [Delivery.put, acknowledge, fetchPart, List.append_nil]

/-- A request that is answered does what requests for its partitions do, one after the other. Where
the handlers of two requests take turns between partitions, these are the steps. -/
theorem step_call (s : Delivery) (req res : Frame)
    (h : (s.broker.handle brokers env req).1 = some (.ok res)) :
    s.step brokers (.call env req)
      = run (Delivery.step brokers) s ((partsOf req).map (.call env)) := by
  have hself : s.put s.broker.host [] = s := by
    rw [Delivery.put, List.append_nil]
  obtain ⟨size, header, body⟩ := req
  cases body with
  | produce body =>
    obtain ⟨resp, hresp, -⟩ := BrokerState.reply_eq_ok h
    have hrun := exec_eq_of_fst hresp
    obtain ⟨responses, rfl, hpass⟩ := pass_of_mapM_bind hrun
    have hparts := run_calls brokers env (s := s)
      (f := fun t => t.partitions.flatMap fun p =>
        [producePart ⟨size, header, .produce body⟩ body t.topic p])
      (g := fun t r => told body.acks (acknowledgeTopic t r)) (fun w t r w' acks ht => by
        obtain ⟨parts, rfl, hparts⟩ := pass_of_mapM_bind ht
        rw [run_calls brokers env (run_producePart brokers env) hparts, told_flatten]
        rfl) hpass []
    rw [hself, told_flatten, List.nil_append] at hparts
    rw [partsOf, hparts, Delivery.step]
    have hhandle : s.broker.handle brokers env ⟨size, header, .produce body⟩
        = (some (.ok (Broker.produceFrame header ⟨env.elapsed, responses⟩)), { s.broker with
          host := ((handleProduce s.broker.image env.elapsed env.waiting body).exec
            s.broker.host).2 }) := by
      show s.broker.reply _ _ = _
      rw [hrun]
      rfl
    rw [hhandle]
    rfl
  | fetch body =>
    obtain ⟨resp, hresp, -⟩ := BrokerState.reply_eq_ok h
    have hrun := exec_eq_of_fst hresp
    obtain ⟨responses, rfl, hpass⟩ := pass_of_mapM_bind hrun
    have hnil {α β : Type} (as : List α) (bs : List β) :
        (List.zipWith (fun _ _ => ([] : List Acknowledgement)) as bs).flatten = [] :=
      told_flatten .all (fun _ _ => []) as bs
    have hparts := run_calls brokers env (s := s)
      (f := fun t => t.partitions.flatMap fun p =>
        [fetchPart ⟨size, header, .fetch body⟩ body t.topic p])
      (g := fun _ _ => []) (fun w t r w' acks ht => by
        obtain ⟨parts, rfl, hparts⟩ := pass_of_mapM_bind ht
        rw [run_calls brokers env (run_fetchPart brokers env) hparts, hnil]) hpass []
    rw [hself, hnil, List.append_nil] at hparts
    rw [partsOf, hparts, Delivery.step]
    have hhandle : s.broker.handle brokers env ⟨size, header, .fetch body⟩
        = (some (.ok (fetchFrame header ⟨env.elapsed, responses⟩)), { s.broker with
          host := ((handleFetch s.broker.image env.elapsed body).exec s.broker.host).2 }) := by
      show s.broker.reply _ _ = _
      rw [hrun]
      rfl
    rw [hhandle]
    rfl
  | metadata | topic | produceResponse | fetchResponse | metadataResponse | topicResponse => rfl

end Steps

/-! ### Frames as bytes -/

/-- What a consumer gets for its request when both frames go over the network as bytes is what it
gets when they are handed over as they are. -/
theorem fetch_over_wire [Crc] {brokers : List BrokerConfig} {env : Surroundings}
    {b b' : BrokerState} {f res : Frame} {resp : FetchResponse} (hf : SendableRequest f)
    (hhandle : b.handle brokers env f = (some (.ok res), b'))
    (hres : res.body = .fetchResponse resp) (hsend : Sendable res) (more : List UInt8) :
    ∃ req, getFrame (f.encode ++ more) = some (f.payload, more) ∧
      Frame.decode f.payload (UInt32.ofNat f.payload.length) = some (.ok req, []) ∧
      b.handle brokers env req = (some (.ok res), b') ∧
      requestFetch (res.encode ++ more) = some (fetchedOf (some (.ok res)), more) := by
  refine ⟨asRead f, ?_, decode_payload hf.fits hf.bounded hf.isRequest _, hhandle, ?_⟩
  · rw [f.encode_eq, getFrame_putFrame hf.small]
  · have hkind : res.body.isRequest = false := by
      rw [hres]
      rfl
    rw [requestFetch, readResponse_encode hsend.fits hkind hsend.small]
    simp only [Option.bind_eq_bind, Option.bind_some, hres, fetchedOf]
    rfl

/-- The poll of consumer `n` is answered. -/
def DeliveryEvent.answers (n : ℕ) : DeliveryEvent → Bool
  | .poll m _ _ _ arrives => m = n && arrives
  | _ => false

namespace Delivery

variable {path : String} {Q : TopicPartition → Record → Prop} {logs : ℕ → List Filled}
  {s : Delivery}

/-- The partitions hold the batches in `logs`, and all that producers and consumers have is in
them. -/
structure Valid (path : String) (Q : TopicPartition → Record → Prop) (logs : ℕ → List Filled)
    (s : Delivery) : Prop where
  stocked : s.broker.Stocked path Q logs
  placed : Placed (logOf logs s.broker.image) s.acknowledged
  follows : ∀ r ∈ s.readers, r.running = true ∧
    r.actor.Follows fun i => logOf logs s.broker.image ⟨r.actor.cfg.topic, i⟩

/-- Where a step has left the consumers, one of which it may have answered. -/
def Kept (log : TopicPartition → List Record) (e : DeliveryEvent) (s s' : Delivery) : Prop :=
  ∀ (n : ℕ) (r : Reader), s.readers[n]? = some r → ∃ r' : Reader, s'.readers[n]? = some r' ∧
    r.actor.Goes (fun i => log ⟨r.actor.cfg.topic, i⟩)
      (if e.answers n then r.actor.partitions.keys else []) r'.actor

lemma kept_of_prefix {log : TopicPartition → List Record} {e : DeliveryEvent} {s' : Delivery}
    (he : ∀ n, e.answers n = false) (hreaders : s.readers <+: s'.readers) : Kept log e s s' := by
  intro n r hr
  refine ⟨r, ?_, ?_⟩
  · obtain ⟨rest, hrest⟩ := hreaders
    rw [← hrest, List.getElem?_append_left (List.getElem?_eq_some_iff.mp hr).1]
    exact hr
  · rw [he n, if_neg Bool.false_ne_true]
    exact .refl r.actor

variable [Crc] (brokers : List BrokerConfig) {env : Surroundings} {correlationId : UInt32}

/-- What clients ask for leaves the consumers as they are. -/
lemma Valid.call {req : Frame} (h : s.Valid path Q logs)
    (hreq : s.broker.Permits path Q env req) :
    ∃ logs', (∀ tp, logOf logs s.broker.image tp <+:
        logOf logs' (s.step brokers (.call env req)).broker.image tp) ∧
      (s.step brokers (.call env req)).Valid path Q logs' ∧
      Kept (logOf logs s.broker.image) (.call env req) s (s.step brokers (.call env req)) := by
  obtain ⟨logs', hlog, hstocked, hplaced⟩ := h.stocked.acknowledge h.placed brokers hreq
  refine ⟨logs', hlog, ⟨hstocked, hplaced, fun r hr => ?_⟩, kept_of_prefix (fun _ => rfl)
    List.prefix_rfl⟩
  obtain ⟨hrunning, hfollows⟩ := h.follows r hr
  exact ⟨hrunning, hfollows.mono fun i => hlog _⟩

lemma handle_metadataRequest (b : BrokerState) :
    (b.handle brokers env (metadataRequest correlationId)).2 = b := by
  show BrokerState.mk b.image b.metadata _ = b
  rw [handleMetadata_host]

omit [Crc] in
/-- A consumer that begins within the log has nothing to send on yet. -/
lemma follows_new {cfg : ConsumerConfig} {metadata : Except RequestError MetadataResponse}
    {c : ConsumerActor} {log : UInt16 → List Record} (hnew : ConsumerActor.new cfg metadata = .ok c)
    (hcfg : ∀ i ∈ cfg.partition, cfg.baseOffset.toNat ≤ (log i).length) : c.Follows log := by
  obtain ⟨rfl, hsent, hstart⟩ := ConsumerActor.new_eq_ok hnew
  constructor
  · rw [hsent]
    exact fun _ hr => absurd hr List.not_mem_nil
  · intro i st hi
    have hnil : c.sentOf i = [] := by
      rw [ConsumerActor.sentOf, hsent]
      rfl
    rw [hnil]
    refine ⟨?_, List.nil_prefix, hstart i st hi⟩
    rw [ConsumerConfig.start]
    split_ifs with hpartition
    · exact hcfg i hpartition
    · exact Nat.zero_le _

lemma Valid.join {cfg : ConsumerConfig} (h : s.Valid path Q logs)
    (hcfg : ∀ i ∈ cfg.partition, cfg.baseOffset.toNat ≤ s.broker.logEnd ⟨cfg.topic, i⟩) :
    (s.step brokers (.join cfg env correlationId)).broker = s.broker ∧
      (s.step brokers (.join cfg env correlationId)).Valid path Q logs ∧
      s.readers <+: (s.step brokers (.join cfg env correlationId)).readers := by
  have hbroker : (s.broker.handle brokers env (metadataRequest correlationId)).2 = s.broker :=
    handle_metadataRequest brokers s.broker
  rw [step]
  rcases hhandle : s.broker.handle brokers env (metadataRequest correlationId) with ⟨res, b⟩
  rw [hhandle] at hbroker
  obtain rfl : b = s.broker := hbroker
  dsimp only
  cases hnew : ConsumerActor.new cfg (metadataOf res) with
  | error e => exact ⟨rfl, h, List.prefix_rfl⟩
  | ok c =>
    refine ⟨rfl, ⟨h.stocked, h.placed, ?_⟩, List.prefix_append _ _⟩
    rw [List.forall_mem_append, List.forall_mem_singleton]
    obtain ⟨rfl, -, -⟩ := ConsumerActor.new_eq_ok hnew
    refine ⟨h.follows, rfl, follows_new hnew fun i hi => ?_⟩
    obtain ⟨hlength, -⟩ := h.stocked.length_logOf ⟨c.cfg.topic, i⟩
    rw [hlength]
    exact hcfg i hi

/-- A consumer sends on the records at its offsets when its fetch is answered. -/
lemma Valid.poll {n : ℕ} {order : List (UInt16 × UInt64) → List (UInt16 × UInt64)} {arrives : Bool}
    (h : s.Valid path Q logs) (horder : ∀ as, (order as).Perm as) :
    (s.step brokers (.poll n env correlationId order arrives)).broker = s.broker ∧
      (s.step brokers (.poll n env correlationId order arrives)).Valid path Q logs ∧
      Kept (logOf logs s.broker.image) (.poll n env correlationId order arrives) s
        (s.step brokers (.poll n env correlationId order arrives)) := by
  rw [step]
  cases hr : s.readers[n]? with
  | none =>
    refine ⟨rfl, h, fun m r hm => ⟨r, hm, ?_⟩⟩
    have hne : n ≠ m := by
      rintro rfl
      cases hr.symm.trans hm
    rw [DeliveryEvent.answers, decide_eq_false hne]
    exact .refl r.actor
  | some r =>
    obtain ⟨hrunning, hfollows⟩ := h.follows r (List.mem_of_getElem? hr)
    obtain ⟨resp, total, c', hhandle, hreceive, hfollows', hgoes⟩ := receive_fetch h.stocked brokers
      env correlationId hfollows (horder r.actor.offsets)
    dsimp only
    rw [if_pos hrunning, hhandle]
    cases arrives with
    | false => exact ⟨rfl, h, kept_of_prefix (fun _ => Bool.and_false _) List.prefix_rfl⟩
    | true =>
      have hturn : r.turn (.ok resp) = ⟨c', true⟩ := by
        rw [Reader.turn, hreceive]
        rfl
      rw [if_pos rfl, fetchedOf_fetchFrame, hturn]
      refine ⟨rfl, ⟨h.stocked, h.placed, fun r' hr' => ?_⟩, fun m r' hm => ?_⟩
      · rcases List.mem_or_eq_of_mem_set hr' with hr' | rfl
        · exact h.follows r' hr'
        · refine ⟨rfl, ?_⟩
          dsimp only
          rw [hgoes.cfg_eq]
          exact hfollows'
      · by_cases hne : n = m
        · subst hne
          obtain rfl : r = r' := Option.some.inj (hr.symm.trans hm)
          refine ⟨⟨c', true⟩, List.getElem?_set_self (List.getElem?_eq_some_iff.mp hr).1, ?_⟩
          rw [DeliveryEvent.answers, decide_eq_true rfl]
          exact hgoes
        · refine ⟨r', (List.getElem?_set_ne hne).trans hm, ?_⟩
          rw [DeliveryEvent.answers, decide_eq_false hne]
          exact .refl r'.actor

/-- What any step does. -/
lemma valid_step {e : DeliveryEvent} (h : s.Valid path Q logs) (hok : s.Allowed path Q e) :
    ∃ logs', (∀ tp, logOf logs s.broker.image tp <+:
        logOf logs' (s.step brokers e).broker.image tp) ∧
      (s.step brokers e).Valid path Q logs' ∧
      Kept (logOf logs s.broker.image) e s (s.step brokers e) := by
  cases e with
  | call env req => exact h.call brokers hok
  | join cfg env correlationId =>
    obtain ⟨hbroker, hvalid, hreaders⟩ := h.join brokers hok
    refine ⟨logs, fun tp => ?_, hvalid, kept_of_prefix (fun _ => rfl) hreaders⟩
    rw [hbroker]
  | poll n env correlationId order arrives =>
    obtain ⟨hbroker, hvalid, hkept⟩ := h.poll brokers hok
    refine ⟨logs, fun tp => ?_, hvalid, hkept⟩
    rw [hbroker]

lemma valid_started {w : Host} (hclean : ∀ dir, Clean (w.dirs dir)) :
    (started path w).Valid path Q fun _ => [] :=
  ⟨BrokerState.stocked_first hclean, placed_nil _, fun _ hr => absurd hr List.not_mem_nil⟩

lemma valid_run {w : Host} (hclean : ∀ dir, Clean (w.dirs dir)) {es : List DeliveryEvent}
    (hmeets : Meets (step brokers) (Allowed path Q) (started path w) es) :
    ∃ logs, (run (step brokers) (started path w) es).Valid path Q logs := by
  refine run_invariant (P := fun s : Delivery => ∃ logs, s.Valid path Q logs) ?_
    ⟨_, valid_started hclean⟩ hmeets
  rintro s e ⟨logs, h⟩ hok
  obtain ⟨logs', -, h', -⟩ := valid_step brokers h hok
  exact ⟨logs', h'⟩

omit [Crc] in
lemma Valid.allowed (h : s.Valid path Q logs) (tp : TopicPartition) :
    ∀ r ∈ logOf logs s.broker.image tp, Q tp r := by
  rw [logOf]
  cases hpart : s.broker.image.partitions.lookup tp with
  | none => exact fun _ hr => absurd hr List.not_mem_nil
  | some handle =>
    have hpart' : s.broker.image.partition tp.topicId tp.partitionId = some handle := hpart
    intro r hr
    exact h.stocked.stocked.good _ (MetadataImage.mem_owners hpart') r hr _
      (AList.mem_lookup_iff.mp hpart) rfl

/-- A consumer goes on to the end of the log as it was, one record with each answer at least. -/
lemma Valid.catches_up {es : List DeliveryEvent} (h : s.Valid path Q logs)
    (hmeets : Meets (step brokers) (Allowed path Q) s es) {n : ℕ} {r : Reader}
    (hr : s.readers[n]? = some r) {i : UInt16} {st : ConsumerPartitionState}
    (hi : r.actor.partitions.lookup i = some st) :
    ∃ logs' r' st', (∀ tp, logOf logs s.broker.image tp <+:
        logOf logs' (run (step brokers) s es).broker.image tp) ∧
      (run (step brokers) s es).Valid path Q logs' ∧
      (run (step brokers) s es).readers[n]? = some r' ∧ r'.actor.cfg = r.actor.cfg ∧
      r'.actor.partitions.lookup i = some st' ∧
      min (logOf logs s.broker.image ⟨r.actor.cfg.topic, i⟩).length
        (st.commitOffset + es.countP (·.answers n)) ≤ st'.commitOffset := by
  induction es generalizing s logs r st with
  | nil => exact ⟨logs, r, st, fun _ => List.prefix_rfl, h, hr, rfl, hi, Nat.min_le_right _ _⟩
  | cons e es ih =>
    obtain ⟨hok, hmeets⟩ := hmeets
    obtain ⟨logs₁, hlog, hvalid, hkept⟩ := valid_step brokers h hok
    obtain ⟨r₁, hr₁, hgoes⟩ := hkept n r hr
    obtain ⟨st₁, hi₁, hle, hlt⟩ := hgoes.commit i st hi
    obtain ⟨logs', r', st', hlog', hvalid', hr', hcfg, hi', hmin⟩ := ih hvalid hmeets hr₁ hi₁
    refine ⟨logs', r', st', fun tp => (hlog tp).trans (hlog' tp), hvalid', hr',
      hcfg.trans hgoes.cfg_eq, hi', ?_⟩
    have hlength := (hlog ⟨r.actor.cfg.topic, i⟩).length_le
    rw [hgoes.cfg_eq] at hmin
    rw [List.countP_cons]
    have hmem : i ∈ r.actor.partitions.keys := AList.lookup_isSome.mp (Option.isSome_of_mem hi)
    cases hanswers : e.answers n with
    | false =>
      rw [if_neg Bool.false_ne_true]
      omega
    | true =>
      rw [hanswers, if_pos rfl] at hlt
      have hnext := hlt hmem
      rw [if_pos rfl]
      omega

end Delivery

/-- At any moment there is one log for each partition, of records that producers have sent, where
every batch that has been acknowledged stands at the offset it was acknowledged with, and of which
every consumer has sent on what is between its start and its offset, in order. No consumer ends. -/
theorem delivered_in_order [Crc] (brokers : List BrokerConfig) (path : String)
    (Q : TopicPartition → Record → Prop) (w : Host) (hclean : ∀ dir, Clean (w.dirs dir))
    (es : List DeliveryEvent) (hmeets : Meets (Delivery.step brokers) (Delivery.Allowed path Q)
      (.started path w) es) :
    ∃ log : TopicPartition → List Record, (∀ tp, ∀ r ∈ log tp, Q tp r) ∧
      Placed log (run (Delivery.step brokers) (.started path w) es).acknowledged ∧
      ∀ r ∈ (run (Delivery.step brokers) (.started path w) es).readers, r.running = true ∧
        r.actor.Follows fun i => log ⟨r.actor.cfg.topic, i⟩ := by
  obtain ⟨logs, hvalid⟩ := Delivery.valid_run brokers hclean hmeets
  exact ⟨_, hvalid.allowed, hvalid.placed, hvalid.follows⟩

/-- A consumer that is answered as often as there are records between its start and the end of an
acknowledged batch has sent on that batch, at its place among the others, whatever else is asked of
the broker in between. -/
theorem acknowledged_delivered [Crc] (brokers : List BrokerConfig) (path : String)
    (Q : TopicPartition → Record → Prop) (w : Host) (hclean : ∀ dir, Clean (w.dirs dir))
    (es es' : List DeliveryEvent) (hmeets : Meets (Delivery.step brokers)
      (Delivery.Allowed path Q) (.started path w) (es ++ es'))
    (n : ℕ) (r : Reader)
    (hr : (run (Delivery.step brokers) (.started path w) es).readers[n]? = some r)
    (a : Acknowledgement)
    (ha : a ∈ (run (Delivery.step brokers) (.started path w) es).acknowledged) (i : UInt16)
    (hpartition : a.partition = ⟨r.actor.cfg.topic, i⟩)
    (hi : (r.actor.partitions.lookup i).isSome) (hstart : r.actor.cfg.start i ≤ a.baseOffset)
    (hpolls : a.baseOffset + a.records.length
      ≤ r.actor.cfg.start i + es'.countP (·.answers n)) :
    ∃ r', (run (Delivery.step brokers) (.started path w) (es ++ es')).readers[n]? = some r' ∧
      a.records <+: (r'.actor.sentOf i).drop (a.baseOffset - r.actor.cfg.start i) := by
  rw [meets_append] at hmeets
  rw [run_append]
  obtain ⟨logs, hvalid⟩ := Delivery.valid_run brokers hclean hmeets.1
  obtain ⟨st, hst⟩ := Option.isSome_iff_exists.mp hi
  obtain ⟨-, hfollows⟩ := hvalid.follows r (List.mem_of_getElem? hr)
  obtain ⟨-, -, hcommit⟩ := hfollows.partition i st hst
  obtain ⟨logs', r', st', hlog, hvalid', hr', hcfg, hst', hmin⟩ :=
    hvalid.catches_up brokers hmeets.2 hr hst
  refine ⟨r', hr', ?_⟩
  obtain ⟨-, hfollows'⟩ := hvalid'.follows r' (List.mem_of_getElem? hr')
  obtain ⟨-, hsent, hcommit'⟩ := hfollows'.partition i st' hst'
  rw [hcfg] at hsent hcommit'
  obtain ⟨hstands, hle⟩ := hvalid.placed.stands a ha
  rw [hpartition] at hstands hle
  -- both are at the front of what the log has behind the offset of the batch
  have hsent' := hsent.drop (a.baseOffset - r.actor.cfg.start i)
  rw [List.drop_drop, Nat.add_sub_cancel' hstart] at hsent'
  refine List.prefix_of_prefix_length_le (hstands.trans ((hlog _).drop a.baseOffset)) hsent' ?_
  rw [List.length_drop]
  omega

/-! ### A record on its way -/

section Examples

local instance : Crc := Crc.castagnoli

def oneRecord : Producer.Batch :=
  Groups.empty.push "orders" 0 (Record.new 9 0 [] [1])

/-- A topic is created, a record is sent to it, and a consumer of the topic is started. -/
def oneSent : List DeliveryEvent :=
  [.call quiet (Frame.new 1 .createTopics (.topic ⟨[⟨"orders", 1, 1, []⟩], 0, false⟩)),
    .call quiet (Frame.new 2 .produce (.produce (Producer.produceRequest .asKept oneRecord))),
    .join ⟨"orders", some 0, 0⟩ quiet 3]

def onePoll : List DeliveryEvent :=
  [.poll 0 quiet 4 id true]

/-- The record is the only one that is sent. -/
def OnlySent (tp : TopicPartition) (r : Record) : Prop :=
  tp = ⟨"orders", 0⟩ ∧ r.value = [1]

instance (tp : TopicPartition) (r : Record) : Decidable (OnlySent tp r) :=
  inferInstanceAs (Decidable (_ ∧ _))

lemma clean_blank (dir : Directory) : Clean (blank.dirs dir) :=
  ⟨1 <<< 20, by decide, rfl⟩

lemma allowed_onePoll : Meets (Delivery.step []) (Delivery.Allowed "data" OnlySent)
    (.started "data" blank) (oneSent ++ onePoll) := by
  refine ⟨?_, ?_, ?_, ?_, trivial⟩
  · show (Delivery.started "data" blank).broker.metadata.isSome → Fresh "data"
      (Delivery.started "data" blank).broker.image
      ((BrokerState.requested ⟨[⟨"orders", 1, 1, []⟩], 0, false⟩).map MetadataImage.key)
    decide +kernel
  · have hwaiting : ∀ w tp, (quiet.waiting w tp).others = [] := fun _ _ => rfl
    have hfillable : Producer.Fillable oneRecord := by decide
    exact Producer.admissible_produceRequest .asKept hfillable (by decide) hwaiting
  · exact fun _ _ => Nat.zero_le _
  · exact fun as => .refl as

theorem delivered_in_order_one : ∃ log : TopicPartition → List Record,
    (∀ tp, ∀ r ∈ log tp, OnlySent tp r) ∧
      Placed log (run (Delivery.step []) (.started "data" blank)
        (oneSent ++ onePoll)).acknowledged ∧
      ∀ r ∈ (run (Delivery.step []) (.started "data" blank) (oneSent ++ onePoll)).readers,
        r.running = true ∧ r.actor.Follows fun i => log ⟨r.actor.cfg.topic, i⟩ :=
  delivered_in_order [] "data" OnlySent blank clean_blank _ allowed_onePoll

/-- The consumer before its first poll. -/
def newReader : Reader :=
  ⟨⟨AList.insert 0 (.fromOffset 0) ∅, ⟨"orders", some 0, 0⟩, []⟩, true⟩

lemma readers_call (s : Delivery) (env : Surroundings) (req : Frame) :
    (s.step [] (.call env req)).readers = s.readers := rfl

/-- A consumer of one partition does not wait for metadata. -/
lemma readers_join (s : Delivery) :
    (s.step [] (.join ⟨"orders", some 0, 0⟩ quiet 3)).readers = s.readers ++ [newReader] := rfl

lemma newReader_eq :
    (run (Delivery.step []) (.started "data" blank) oneSent).readers[0]? = some newReader := by
  rw [oneSent, run_cons, run_cons, run_cons, run_nil, readers_join, readers_call, readers_call]
  rfl

def onlyAcknowledgement : Acknowledgement :=
  ⟨⟨"orders", 0⟩, 0, [.new 0 0 [] [1]]⟩

lemma onlyAcknowledgement_mem :
    onlyAcknowledgement ∈ (run (Delivery.step []) (.started "data" blank) oneSent).acknowledged := by
  decide +kernel

theorem acknowledged_delivered_one : ∃ r', (run (Delivery.step []) (.started "data" blank)
      (oneSent ++ onePoll)).readers[0]? = some r' ∧
    [Record.new 0 0 [] [1]] <+: r'.actor.sentOf 0 :=
  acknowledged_delivered [] "data" OnlySent blank clean_blank oneSent onePoll allowed_onePoll 0
    newReader newReader_eq onlyAcknowledgement onlyAcknowledgement_mem 0 rfl rfl (Nat.zero_le _)
    (by decide)

end Examples

end Musil.Consumer
