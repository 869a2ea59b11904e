import Musil.Broker.Metadata
import Musil.Network.Requests

/-!
# From a request to its answer

A broker hands each frame to the handler for its body. The answer goes back under the header of the
request, is of the matching kind, and has an entry for everything that was asked for; where the
request fits its fields, so does the answer to it.
-/

namespace Musil.Broker

open Network Proto Threaded
open Storage (PartitionCommand)

/-- What a handler takes from clocks and hash maps. -/
structure Readings where
  clock : Host → UInt64
  elapsed : UInt32
  order : MetadataOrder

/-- What a handler takes from its surroundings when it answers a request in one step. -/
structure Surroundings extends Readings where
  waiting : Host → TopicPartition → Waiting

/-- The errors that `handle` returns. -/
inductive HandleError where
  | io (e : IoError)
  | unsupportedFrameType
  deriving DecidableEq, Repr

namespace BrokerState

/-- The frame around what a handler has put together, unless the handler panics. -/
def reply {α : Type} (b : BrokerState) (frame : α → Frame) (outcome : Option α × Host) :
    Option (Except HandleError Frame) × BrokerState :=
  (outcome.1.map fun a => .ok (frame a), { b with host := outcome.2 })

variable [Crc] (brokers : List BrokerConfig)

/-- Hand a request to its handler. There is no value when the handler panics. -/
def handle (b : BrokerState) (env : Surroundings) (req : Frame) :
    Option (Except HandleError Frame) × BrokerState :=
  match req.body with
  | .fetch body =>
    b.reply (fetchFrame req.header) ((handleFetch b.image env.elapsed body).exec b.host)
  | .produce body =>
    b.reply (produceFrame req.header)
      ((handleProduce b.image env.elapsed env.waiting body).exec b.host)
  | .metadata _ =>
    b.reply (metadataFrame req.header)
      ((handleMetadata env.order brokers env.elapsed b.image).exec b.host)
  | .topic body =>
    match b.handleCreateTopics env.clock env.elapsed body with
    | (.ok res, b) => (some (.ok (createTopicsFrame req.header res)), b)
    | (.error e, b) => (some (.error (.io e)), b)
  | _ => (some (.error .unsupportedFrameType), b)

end BrokerState

/-! ### Answers -/

/-- The response has an entry for each entry of the request, in its order. -/
def Mirrors : FrameBody → FrameBody → Prop
  | .produce req, .produceResponse resp =>
    List.Forall₂ (fun t r => r.topic = t.topic ∧
      List.Forall₂ (fun _ p => p.errorMessage = "") t.partitions r.partitionResponses)
      req.topics resp.responses
  | .fetch req, .fetchResponse resp =>
    List.Forall₂ (fun t r => r.topic = t.topic ∧ t.partitions.length = r.partitions.length)
      req.topics resp.responses
  | .metadata _, .metadataResponse _ => True
  | .topic req, .topicResponse resp => resp.topics = req.topics.map MetadataActor.response
  | _, _ => False

/-- The frame answers the request. -/
structure Answers (req res : Frame) : Prop where
  header : res.header = req.header
  body : Mirrors req.body res.body
  built : Built res

section Mirrors

variable {req res : FrameBody}

lemma Mirrors.isRequest (h : Mirrors req res) : req.isRequest = true ∧ res.isRequest = false := by
  cases req <;> cases res <;> first | exact h.elim | exact ⟨rfl, rfl⟩

lemma Mirrors.apiKey (h : Mirrors req res) : res.apiKey = req.apiKey := by
  cases req <;> cases res <;> first | exact h.elim | rfl

lemma fits_produceResponse [Crc] {req : ProduceRequest} {resp : ProduceResponse}
    (h : Mirrors (.produce req) (.produceResponse resp)) (hreq : req.Fits) : resp.Fits := by
  obtain ⟨-, hcount, htopics⟩ := hreq
  constructor
  · rw [← List.Forall₂.length_eq h]
    exact hcount.trans (by decide)
  · intro r hr
    obtain ⟨t, ht, hname, hparts⟩ := exists_of_mem_right h hr
    obtain ⟨htopic, hcount, -⟩ := htopics t ht
    refine ⟨hname ▸ htopic, hparts.length_eq ▸ hcount, fun p hp => ?_⟩
    obtain ⟨-, -, hmessage⟩ := exists_of_mem_right hparts hp
    rw [hmessage]
    decide

lemma fits_fetchResponse [Crc] {req : FetchRequest} {resp : FetchResponse}
    (h : Mirrors (.fetch req) (.fetchResponse resp)) (hreq : req.Fits)
    (hrecords : ∀ t ∈ resp.responses, ∀ p ∈ t.partitions, p.Fits) : resp.Fits := by
  obtain ⟨hcount, htopics⟩ := hreq
  constructor
  · rw [← List.Forall₂.length_eq h]
    exact hcount
  · intro r hr
    obtain ⟨t, ht, hname, hlength⟩ := exists_of_mem_right h hr
    obtain ⟨htopic, hcount⟩ := htopics t ht
    exact ⟨hname ▸ htopic, hlength ▸ hcount, hrecords r hr⟩

lemma fits_topicResponse {req : CreateTopicRequest} {resp : CreateTopicResponse}
    (h : resp.topics = req.topics.map MetadataActor.response) (hreq : req.Fits) : resp.Fits := by
  obtain ⟨hcount, htopics⟩ := hreq
  constructor
  · rwa [h, List.length_map]
  · intro r hr
    rw [h] at hr
    obtain ⟨t, ht, rfl⟩ := List.mem_map.mp hr
    exact ⟨(htopics t ht).1, show FitsU16 "" by decide⟩

/-- The answer to a request that fits its fields fits its own, where the records of a fetch and the
topics of the image do. -/
lemma Mirrors.fits [Crc] (h : Mirrors req res) (hreq : req.Fits)
    (hfetch : ∀ resp, res = .fetchResponse resp → ∀ t ∈ resp.responses, ∀ p ∈ t.partitions, p.Fits)
    (hmetadata : ∀ resp, res = .metadataResponse resp → resp.Fits) : res.Fits := by
  cases req with
  | produce req =>
    cases res with
    | produceResponse resp => exact fits_produceResponse h hreq
    | _ => exact h.elim
  | fetch req =>
    cases res with
    | fetchResponse resp => exact fits_fetchResponse h hreq (hfetch resp rfl)
    | _ => exact h.elim
  | metadata req =>
    cases res with
    | metadataResponse resp => exact hmetadata resp rfl
    | _ => exact h.elim
  | topic req =>
    cases res with
    | topicResponse resp => exact fits_topicResponse h hreq
    | _ => exact h.elim
  | produceResponse | fetchResponse | metadataResponse | topicResponse => exact h.elim

end Mirrors

/-! ### The handlers answer -/

section Handlers

variable {w w' : Host} {image : MetadataImage}

lemma mirrors_fetch [Crc] {elapsed : UInt32} {req : FetchRequest} {resp : FetchResponse}
    (hrun : (handleFetch image elapsed req).exec w = (some resp, w')) :
    Mirrors (.fetch req) (.fetchResponse resp) := by
  obtain ⟨responses, rfl, hpass⟩ := pass_of_mapM_bind hrun
  refine hpass.forall₂.imp fun t r ⟨w, w', hr⟩ => ?_
  obtain ⟨parts, rfl, hparts⟩ := pass_of_mapM_bind hr
  exact ⟨rfl, hparts.forall₂.length_eq⟩

lemma mirrors_produce {elapsed : UInt32} {waiting : Host → TopicPartition → Waiting}
    {req : ProduceRequest} {resp : ProduceResponse}
    (hrun : (handleProduce image elapsed waiting req).exec w = (some resp, w')) :
    Mirrors (.produce req) (.produceResponse resp) := by
  obtain ⟨responses, rfl, hpass⟩ := pass_of_mapM_bind hrun
  refine hpass.forall₂.imp fun t r ⟨w, w', hr⟩ => ?_
  obtain ⟨parts, rfl, hparts⟩ := pass_of_mapM_bind hr
  refine ⟨rfl, hparts.forall₂.imp fun p res ⟨w, w', hres⟩ => ?_⟩
  rw [producePartition] at hres
  cases hfind : image.partition t.topic p.index with
  | none =>
    rw [hfind] at hres
    cases hres
    rfl
  | some h =>
    rw [hfind] at hres
    dsimp only at hres
    rw [exec_get_bind, PartitionHandle.append] at hres
    obtain ⟨replies, w₁, -, hres⟩ := exec_bind_eq_some.mp hres
    obtain ⟨later, w₂, -, hres⟩ := exec_bind_eq_some.mp hres
    obtain ⟨response, -, hres⟩ := exec_orPanic_bind_eq_some.mp hres
    cases hres
    rfl

lemma mirrors_create [Crc] {actor : MetadataActor} {clock : Host → UInt64} {elapsed : UInt32}
    {req : CreateTopicRequest} {r : MetadataImage × CreateTopicResponse}
    (hrun : (actor.create clock image elapsed req).exec w = (some r, w')) :
    Mirrors (.topic req) (.topicResponse r.2) := by
  obtain ⟨-, w₁, -, hrun⟩ := exec_bind_eq_some.mp hrun
  obtain ⟨next, w₂, -, hrun⟩ := exec_bind_eq_some.mp hrun
  obtain ⟨-, w₃, -, hrun⟩ := exec_bind_eq_some.mp hrun
  cases hrun
  rfl

end Handlers

namespace BrokerState

variable [Crc] {brokers : List BrokerConfig} {b b' : BrokerState} {env : Surroundings} {req res : Frame}

omit [Crc] in
lemma reply_eq_ok {α : Type} {frame : α → Frame} {outcome : Option α × Host}
    (h : (b.reply frame outcome).1 = some (.ok res)) :
    ∃ a, outcome.1 = some a ∧ res = frame a := by
  obtain ⟨a, ha, heq⟩ := Option.map_eq_some_iff.mp h
  exact ⟨a, ha, (Except.ok.inj heq).symm⟩

/-- What `handle` returns without an error answers the request. -/
lemma handle_answers (h : (b.handle brokers env req).1 = some (.ok res)) : Answers req res := by
  obtain ⟨size, header, body⟩ := req
  cases body with
  | fetch body =>
    obtain ⟨resp, hresp, rfl⟩ := reply_eq_ok h
    exact ⟨rfl, mirrors_fetch (exec_eq_of_fst hresp), .fetch header resp⟩
  | produce body =>
    obtain ⟨resp, hresp, rfl⟩ := reply_eq_ok h
    exact ⟨rfl, mirrors_produce (exec_eq_of_fst hresp), .produce header resp⟩
  | metadata body =>
    obtain ⟨resp, -, rfl⟩ := reply_eq_ok h
    exact ⟨rfl, trivial, .metadata header resp⟩
  | topic body =>
    simp only [handle, handleCreateTopics] at h
    cases hactor : b.metadata with
    | none =>
      simp only [hactor] at h
      cases h
    | some actor =>
      simp only [hactor] at h
      rcases hrun : (actor.create env.clock b.image env.elapsed body).exec b.host
        with ⟨_ | ⟨image, response⟩, w⟩
      · simp only [hrun] at h
        cases h
      · simp only [hrun] at h
        cases h
        exact ⟨rfl, mirrors_create hrun, .createTopics header response⟩
  | produceResponse | fetchResponse | metadataResponse | topicResponse => cases h

end BrokerState

end Musil.Broker
