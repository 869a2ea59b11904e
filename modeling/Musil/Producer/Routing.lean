import Musil.Broker.Metadata
import Musil.Producer.Lossless

/-!
# Requests reach partitions

A producer asks for the metadata once, when it connects. The partitions that it chooses from then on
are registered with the broker and stay so, whatever topics are requested later and through all
restarts.
-/

namespace Musil.Producer

open Proto Network Broker

/-! ### The chosen partition -/

section Choice

variable [Murmur2] {actor : ProducerActor} {image : MetadataImage} {payload : PublishPayload}
  {drawn : ℕ}

/-- The chosen partition is one of those that are listed. -/
lemma mem_keys_of_calculateIndex (h : Lists actor.metadataImage image) (hdense : Dense image)
    {idx : UInt16} (hidx : actor.calculateIndex payload drawn = some idx) :
    ⟨payload.topic, idx⟩ ∈ image.keys := by
  obtain ⟨t, ht, hidx⟩ := Option.bind_eq_some_iff.mp hidx
  have hname : t.name = payload.topic := by
    have hfound := List.find?_some ht
    exact of_decide_eq_true hfound
  obtain ⟨hpos, hle, hkeys⟩ := h.mem_keys_iff hdense (List.mem_of_find?_eq_some ht)
  have hmod (x : ℕ) : ⟨payload.topic, UInt16.ofNat (x % t.partitions.length)⟩ ∈ image.keys := by
    have hlt : x % t.partitions.length < t.partitions.length := Nat.mod_lt _ hpos
    rw [← hname, hkeys, UInt16.toNat_ofNat_of_lt' (hlt.trans_le hle)]
    exact hlt
  rw [if_neg hpos.ne'] at hidx
  cases hkey : payload.key with
  | none =>
    rw [hkey] at hidx
    exact Option.some.inj hidx ▸ hmod _
  | some key =>
    rw [hkey] at hidx
    exact Option.some.inj hidx ▸ hmod _

omit [Murmur2] in
/-- A topic with a registered partition is known. -/
lemma find?_of_mem_keys (h : Lists actor.metadataImage image) {q : TopicPartition}
    (hq : q ∈ image.keys) :
    ∃ t, actor.metadataImage.topics.find? (fun t => t.name = q.topicId) = some t ∧
      t.partitions ≠ [] := by
  obtain ⟨t, ht, hname⟩ := h.topics q hq
  have hsome : (actor.metadataImage.topics.find? fun t => t.name = q.topicId).isSome :=
    List.find?_isSome.mpr ⟨t, ht, decide_eq_true hname⟩
  obtain ⟨t', ht'⟩ := Option.isSome_iff_exists.mp hsome
  obtain ⟨ids, hmap, hne, -⟩ := h.partitions t' (List.mem_of_find?_eq_some ht')
  refine ⟨t', ht', fun hnil => hne ?_⟩
  rw [hnil, List.map_nil] at hmap
  exact List.map_eq_nil_iff.mp hmap.symm

end Choice

/-! ### Requests for registered partitions -/

/-- The image has all partitions that the request is for. -/
def Registered (image : MetadataImage) (req : ProduceRequest) : Prop :=
  ∀ t ∈ req.topics, ∀ p ∈ t.partitions, ⟨t.topic, p.index⟩ ∈ image.keys

/-- Records wait only for partitions of the image, and the requests are for such. -/
structure Routed (image : MetadataImage) (s : Batcher) : Prop where
  waiting : ∀ topic index, s.batch.get topic index ≠ [] → ⟨topic, index⟩ ∈ image.keys
  published : ∀ r ∈ s.published, Registered image r.2

section Routed

variable [Crc] {image : MetadataImage} {s s' : Batcher} {order : IterOrder} {cause : Cause}

lemma registered_produceRequest {value : Batch}
    (h : ∀ topic index, value.get topic index ≠ [] → ⟨topic, index⟩ ∈ image.keys) :
    Registered image (produceRequest order value) := by
  intro t ht p hp
  obtain ⟨e, he, rfl⟩ := List.mem_map.mp ((order.topics_perm _).mem_iff.mp ht)
  obtain ⟨e', he', rfl⟩ := List.mem_map.mp ((order.partitions_perm _).mem_iff.mp hp)
  have hfind : value.find e.1 e'.1 = some e'.2 :=
    Option.bind_eq_some_iff.mpr ⟨e.2, AList.mem_lookup_iff.mpr he, AList.mem_lookup_iff.mpr he'⟩
  apply h e.1 e'.1
  have hget := value.find_eq e.1 e'.1
  split_ifs at hget with hnil
  · rw [hfind] at hget
    cases hget
  · exact hnil

omit [Crc]

/-- A record is added for a partition of the image. -/
lemma get_push_mem {batch : Batch} {topic : String} {idx : UInt16} {r : Record}
    (h : ∀ topic index, batch.get topic index ≠ [] → ⟨topic, index⟩ ∈ image.keys)
    (hidx : ⟨topic, idx⟩ ∈ image.keys) (topic' : String) (index : UInt16)
    (hne : (batch.push topic idx r).get topic' index ≠ []) : ⟨topic', index⟩ ∈ image.keys := by
  by_cases heq : topic = topic' ∧ idx = index
  · obtain ⟨rfl, rfl⟩ := heq
    exact hidx
  · rw [Groups.get_push_ne _ heq] at hne
    exact h topic' index hne

lemma get_empty_mem (topic : String) (index : UInt16)
    (hne : (Groups.empty : Batch).get topic index ≠ []) : ⟨topic, index⟩ ∈ image.keys :=
  absurd (Groups.get_empty topic index) hne

/-- A request for partitions of the image is published. -/
lemma Routed.publish (h : Routed image s) {req : ProduceRequest} (hreq : Registered image req) :
    ∀ r ∈ (s.publishRaw cause req).published, Registered image r.2 := by
  intro r hr
  rcases List.mem_append.mp hr with hold | hnew
  · exact h.published r hold
  · exact List.mem_singleton.mp hnew ▸ hreq

variable [Crc] [Murmur2] {actor : ProducerActor} {payload : PublishPayload} {turn : Turn}

lemma Routed.publishOnce (h : Routed image s)
    (hidx : ∀ idx, actor.calculateIndex payload turn.partition = some idx →
      ⟨payload.topic, idx⟩ ∈ image.keys)
    (hs : actor.publishOnce s payload turn = some s') : Routed image s' := by
  obtain ⟨idx, hchosen, hs⟩ := Option.bind_eq_some_iff.mp hs
  cases hs
  exact ⟨h.waiting, h.publish (registered_produceRequest
    (get_push_mem get_empty_mem (hidx idx hchosen)))⟩

lemma Routed.enqueue (h : Routed image s)
    (hidx : ∀ idx, actor.calculateIndex payload turn.partition = some idx →
      ⟨payload.topic, idx⟩ ∈ image.keys)
    (hs : actor.enqueue s payload turn = some s') : Routed image s' := by
  obtain ⟨idx, hchosen, hs⟩ := Option.bind_eq_some_iff.mp hs
  set pushed : Batcher := { s with
    batch := s.batch.push payload.topic idx (payload.toRecord turn.clock) } with hpushed
  obtain ⟨-, hbatch, hpublished, -⟩ := ProducerActor.arm_eq pushed actor.config turn.now
  set armed := pushed.arm actor.config turn.now with harmed
  have hrouted : Routed image armed := by
    constructor
    · rw [hbatch]
      exact get_push_mem h.waiting (hidx idx hchosen)
    · rw [hpublished]
      exact h.published
  dsimp only at hs
  rw [← hpushed, ← harmed] at hs
  split_ifs at hs
  · obtain rfl := Option.some.inj hs
    exact ⟨get_empty_mem, hrouted.publish (registered_produceRequest hrouted.waiting)⟩
  · obtain rfl := Option.some.inj hs
    exact hrouted

omit [Murmur2] in
lemma Routed.flush (h : Routed image s) (order : IterOrder) (active returned : Bool) :
    Routed image { s.publish .batch order s.batch with
      batch := .empty, timerActive := active, returned := returned } :=
  ⟨get_empty_mem, h.publish (registered_produceRequest h.waiting)⟩

/-- One turn, whatever is chosen. -/
lemma Routed.step (h : Routed image s)
    (hidx : ∀ payload drawn idx, actor.calculateIndex payload drawn = some idx →
      ⟨payload.topic, idx⟩ ∈ image.keys) {e : Event}
    (hs : actor.step s e = some s') : Routed image s' := by
  cases e with
  | timer turn =>
    rw [ProducerActor.step] at hs
    split_ifs at hs
    · obtain rfl := Option.some.inj hs
      exact h.flush turn.order false s.returned
    · obtain rfl := Option.some.inj hs
      exact h
  | recv item turn =>
    unfold ProducerActor.step at hs
    dsimp only at hs
    split_ifs at hs
    · obtain rfl := Option.some.inj hs
      exact h
    · cases item with
      | sync payload => exact h.publishOnce (hidx payload turn.partition) hs
      | async payload => exact h.enqueue (hidx payload turn.partition) hs
      | shutdown =>
        obtain rfl := Option.some.inj hs
        rw [Batcher.shutdown]
        split_ifs
        · exact ⟨h.waiting, h.published⟩
        · exact h.flush turn.order s.timerActive true

lemma routed_batcher {now : ℕ} {events : List Event} (h : Lists actor.metadataImage image)
    (hdense : Dense image) (hs : actor.batcher now events = some s) : Routed image s := by
  induction events using List.reverseRecOn generalizing s with
  | nil =>
    obtain rfl := Option.some.inj hs
    exact ⟨get_empty_mem, fun _ hr => absurd hr List.not_mem_nil⟩
  | append_singleton events e ih =>
    rw [ProducerActor.batcher_concat] at hs
    obtain ⟨s', hs', hstep⟩ := Option.bind_eq_some_iff.mp hs
    exact (ih hs').step (fun _ _ _ => mem_keys_of_calculateIndex h hdense) hstep

end Routed

/-! ### A producer and its broker -/

/-- The topic of the event's payload, if it has one, has been requested with some partition. -/
def TopicRequested (es : List BrokerEvent) : Event → Prop
  | .recv (.sync payload) _ | .recv (.async payload) _ => ∃ i, Requested es ⟨payload.topic, i⟩
  | _ => True

/-- A producer connects to a broker after the events `es`, and the broker goes through `es'`. As
long as the producer is given payloads for topics that had been requested before, it never panics.
The records that it holds and the requests that it publishes are for partitions that had been
requested, and the broker has all that it publishes to registered. -/
theorem published_registered [Crc] [Murmur2] (path : String) (w : Host) (es es' : List BrokerEvent)
    (h : Orderly path w (es ++ es')) (order : MetadataOrder) (brokers : List BrokerConfig)
    (elapsed : UInt32) (config : ProducerConfig) (now : ℕ) (events : List Event) :
    ∃ resp, ((handleMetadata order brokers elapsed (brokerAfter path w es).image).exec
        (brokerAfter path w es).host).1 = some resp ∧
      ((∀ e ∈ events, TopicRequested es e) →
        ((⟨resp, config⟩ : ProducerActor).batcher now events).isSome) ∧
      ∀ s, (⟨resp, config⟩ : ProducerActor).batcher now events = some s →
        (∀ topic index, s.batch.get topic index ≠ [] → Requested es ⟨topic, index⟩) ∧
        ∀ r ∈ s.published, ∀ t ∈ r.2.topics, ∀ p ∈ t.partitions,
          Requested es ⟨t.topic, p.index⟩ ∧
            ((brokerAfter path w (es ++ es')).image.partition t.topic p.index).isSome := by
  have hbefore : Orderly path w es := h.of_append
  obtain ⟨resp, hrun, -, hlists⟩ := handleMetadata_lists order brokers elapsed
    (has_brokerAfter path w es)
  refine ⟨resp, by rw [hrun], fun hevents => ?_, fun s hs =>
    ⟨fun topic index hne => ?_, fun r hr t ht p hp => ?_⟩⟩
  · refine ProducerActor.isSome_batcher fun e he => ?_
    have hrequested := hevents e he
    cases e with
    | timer turn => trivial
    | recv item turn =>
      cases item with
      | sync payload =>
        obtain ⟨i, hi⟩ := hrequested
        exact find?_of_mem_keys hlists ((hbefore.mem_keys_iff _).mpr hi)
      | async payload =>
        obtain ⟨i, hi⟩ := hrequested
        exact find?_of_mem_keys hlists ((hbefore.mem_keys_iff _).mpr hi)
      | shutdown => trivial
  · exact (hbefore.mem_keys_iff _).mp ((routed_batcher hlists hbefore.dense hs).waiting _ _ hne)
  · have hmem := (routed_batcher hlists hbefore.dense hs).published r hr t ht p hp
    rw [hbefore.mem_keys_iff] at hmem
    have hlater : ⟨t.topic, p.index⟩ ∈ (brokerAfter path w (es ++ es')).image.keys :=
      (h.mem_keys_iff _).mpr hmem.append
    exact ⟨hmem, AList.lookup_isSome.mpr hlater⟩

section Example

local instance : Crc := Crc.castagnoli

/-- Any hash will do. -/
local instance : Murmur2 := ⟨fun key _ => UInt32.ofNat key.length⟩

/-- What a broker with the topic answers to a producer that connects. -/
def jobsAnswer : Option MetadataResponse :=
  ((handleMetadata .asKept [] 0 (brokerAfter "data" blank [createTopic "jobs" 2]).image).exec
    (brokerAfter "data" blank [createTopic "jobs" 2]).host).1

def jobsEvents : List Event := [.recv (.async ⟨"jobs", some "k", "a"⟩) (turnAt 1)]

/-- The broker gets another topic meanwhile and is started again. -/
theorem published_registered_jobs : ∃ resp s, jobsAnswer = some resp ∧
    (⟨resp, ⟨50, 0⟩⟩ : ProducerActor).batcher 0 jobsEvents = some s ∧ s.published.length = 1 ∧
    ∀ r ∈ s.published, ∀ t ∈ r.2.topics, ∀ p ∈ t.partitions,
      Requested [createTopic "jobs" 2] ⟨t.topic, p.index⟩ ∧
        ((brokerAfter "data" blank jobsAndLogs).image.partition t.topic p.index).isSome := by
  obtain ⟨resp, hresp, hsome, hregistered⟩ := published_registered "data" blank
    [createTopic "jobs" 2] [createTopic "logs" 1, .start .asKept] orderly_jobsAndLogs .asKept [] 0 ⟨50, 0⟩ 0
    jobsEvents
  have hevents : ∀ e ∈ jobsEvents, TopicRequested [createTopic "jobs" 2] e := by
    intro e he
    obtain rfl := List.mem_singleton.mp he
    exact ⟨0, ⟨"jobs", 2, 1, []⟩, List.mem_cons_self, rfl, by decide⟩
  obtain ⟨s, hs⟩ := Option.isSome_iff_exists.mp (hsome hevents)
  have hcount : jobsAnswer.bind (fun resp =>
      ((⟨resp, ⟨50, 0⟩⟩ : ProducerActor).batcher 0 jobsEvents).map (·.published.length)) = some 1 := by
    decide +kernel
  rw [show jobsAnswer = some resp from hresp, Option.bind_some, hs, Option.map_some] at hcount
  exact ⟨resp, s, hresp, hs, Option.some.inj hcount, (hregistered s hs).2⟩

end Example

end Musil.Producer
