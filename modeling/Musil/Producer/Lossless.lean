import Musil.Producer.Batcher

/-!
# The batcher loses and repeats nothing

At every turn of the loop, the records that were published in batches and those that still wait
are together the records of the asynchronous commands, for each topic and partition in the order
in which they came; and the timer is enabled exactly while records wait. When the loop returns,
none waits any more.
-/

namespace Musil

open Proto Network

/-- The record batches of a request for one partition of one topic. -/
def Network.ProduceRequest.recordsAt (req : ProduceRequest) (topic : String) (index : UInt16) :
    List RecordBatch :=
  (req.topics.filter fun t => t.topic = topic).flatMap fun t =>
    (t.partitions.filter fun p => p.index = index).map ProducePartition.records

namespace Producer

/-! ### What a request carries -/

section Requests

variable [Crc] {order : IterOrder} {topic : String} {index : UInt16}

/-- For one partition of one topic the request has one batch, of exactly these records, or none
when there are no records. -/
def Carries (topic : String) (index : UInt16) (req : ProduceRequest) (rs : List Record) : Prop :=
  req.recordsAt topic index = if rs = [] then [] else [.fromRecords rs]

lemma recordsAt_produceRequest (order : IterOrder) (value : Batch) (topic : String)
    (index : UInt16) : (produceRequest order value).recordsAt topic index
      = ((value.find topic index).map RecordBatch.fromRecords).toList := by
  rw [ProduceRequest.recordsAt, produceRequest, requestFor,
    AList.filter_of_perm ProduceTopic.topic (fun _ => rfl) (order.topics_perm _), Groups.find]
  cases value.entries.lookup topic with
  | none => rfl
  | some inner =>
    change (List.filter _ _).map _ ++ [] = _
    rw [List.append_nil, AList.filter_of_perm ProducePartition.index (fun _ => rfl)
      (order.partitions_perm _), Option.bind_some]
    cases inner.lookup index <;> rfl

lemma carries_produceRequest (order : IterOrder) (value : Batch) (topic : String)
    (index : UInt16) :
    Carries topic index (produceRequest order value) (value.get topic index) := by
  rw [Carries, recordsAt_produceRequest, value.find_eq]
  split_ifs <;> rfl

/-- A request of its own for one record. -/
lemma produceRequest_single (order : IterOrder) (topic : String) (index : UInt16) (r : Record) :
    produceRequest order (Groups.empty.push topic index r)
      = requestFor [⟨topic, [⟨index, .fromRecords [r]⟩]⟩] := by
  have hpartitions : order.partitions [⟨index, .fromRecords [r]⟩]
      = [⟨index, .fromRecords [r]⟩] :=
    List.perm_singleton.mp (order.partitions_perm _)
  have htopics : order.topics [⟨topic, [⟨index, .fromRecords [r]⟩]⟩]
      = [⟨topic, [⟨index, .fromRecords [r]⟩]⟩] :=
    List.perm_singleton.mp (order.topics_perm _)
  exact congrArg requestFor ((congrArg (fun ps => order.topics [⟨topic, ps⟩]) hpartitions).trans
    htopics)

end Requests

/-! ### What was sent -/

lemma filterMap_concat {α β : Type} (f : α → Option β) (as : List α) (a : α) :
    (as ++ [a]).filterMap f = as.filterMap f ++ (f a).toList := by
  rw [List.filterMap_append]
  cases h : f a with
  | none => rw [List.filterMap_cons_none h]; rfl
  | some b => rw [List.filterMap_cons_some h]; rfl

/-- The requests that were published for that cause, in order. -/
def Batcher.requests (s : Batcher) (cause : Cause) : List ProduceRequest :=
  s.published.filterMap fun p => if p.1 = cause then some p.2 else none

namespace ProducerActor

variable [Crc] [Murmur2] (actor : ProducerActor)

omit [Crc] in
/-- The record of an asynchronous command for that partition. -/
def asyncRecord (topic : String) (index : UInt16) : Event → Option Record
  | .recv (.async payload) turn =>
    if payload.topic = topic ∧ actor.calculateIndex payload turn.partition = some index then
      some (payload.toRecord turn.clock)
    else none
  | _ => none

/-- The request for a synchronous command. -/
def syncRequest : Event → Option ProduceRequest
  | .recv (.sync payload) turn =>
    (actor.calculateIndex payload turn.partition).map fun index =>
      requestFor [⟨payload.topic, [⟨index, .fromRecords [payload.toRecord turn.clock]⟩]⟩]
  | _ => none

omit [Crc] in
/-- A partition is chosen for the payload of the event, if it has one. -/
def Chosen : Event → Prop
  | .recv (.sync payload) turn | .recv (.async payload) turn =>
    (actor.calculateIndex payload turn.partition).isSome
  | _ => True

omit [Crc] [Murmur2] in
/-- The topic of the event's payload, if it has one, is known and has partitions. -/
def Known : Event → Prop
  | .recv (.sync payload) _ | .recv (.async payload) _ =>
    ∃ t, actor.metadataImage.topics.find? (fun t => t.name = payload.topic) = some t ∧
      t.partitions ≠ []
  | _ => True

end ProducerActor

def Event.isShutdown : Event → Bool
  | .recv .shutdown _ => true
  | _ => false

/-! ### One turn -/

namespace Batcher

section Publishing

variable {s : Batcher} {req : ProduceRequest}

lemma requests_publishRaw (s : Batcher) (cause : Cause) (req : ProduceRequest) :
    (s.publishRaw cause req).requests cause = s.requests cause ++ [req] := by
  rw [requests, publishRaw, filterMap_concat, if_pos rfl]
  rfl

lemma requests_publishRaw_ne {cause cause' : Cause} (s : Batcher) (req : ProduceRequest)
    (h : cause' ≠ cause) : (s.publishRaw cause' req).requests cause = s.requests cause := by
  rw [requests, publishRaw, filterMap_concat, if_neg h]
  exact List.append_nil _

end Publishing

/-- What was published in batches and what waits is together `rs`, for one partition. -/
def Holds [Crc] (s : Batcher) (topic : String) (index : UInt16) (rs : List Record) : Prop :=
  ∃ chunks, List.Forall₂ (Carries topic index) (s.requests .batch) chunks ∧
    chunks.flatten ++ s.batch.get topic index = rs

lemma Holds.push [Crc] {s s' : Batcher} {topic : String} {index : UInt16} {rs rs' : List Record}
    (h : s.Holds topic index rs) (hrequests : s'.requests .batch = s.requests .batch)
    (hbatch : s'.batch.get topic index = s.batch.get topic index ++ rs') :
    s'.Holds topic index (rs ++ rs') := by
  obtain ⟨chunks, hchunks, rfl⟩ := h
  exact ⟨chunks, hrequests ▸ hchunks, by rw [hbatch, List.append_assoc]⟩

/-- The batch is published and a new one begun. -/
lemma Holds.flush [Crc] {s s' : Batcher} {topic : String} {index : UInt16} {rs : List Record}
    {order : IterOrder} (h : s.Holds topic index rs)
    (hrequests : s'.requests .batch = s.requests .batch ++ [produceRequest order s.batch])
    (hbatch : s'.batch = .empty) : s'.Holds topic index rs := by
  obtain ⟨chunks, hchunks, rfl⟩ := h
  refine ⟨chunks ++ [s.batch.get topic index], ?_, ?_⟩
  · rw [hrequests]
    exact List.rel_append hchunks (.cons (carries_produceRequest order s.batch topic index) .nil)
  · rw [hbatch, Groups.get_empty, List.append_nil, List.flatten_append, List.flatten_singleton]

end Batcher

namespace ProducerActor

variable [Crc] [Murmur2] (actor : ProducerActor)

/-- What is true at every turn of the loop after the events `es`. -/
structure Kept (es : List Event) (s : Batcher) : Prop where
  running : s.returned = false
  timerActive_eq : s.timerActive = !s.batch.isEmpty
  chosen : ∀ e ∈ es, actor.Chosen e
  synced : s.requests .sync = es.filterMap actor.syncRequest
  holds : ∀ topic index, s.Holds topic index (es.filterMap (actor.asyncRecord topic index))

section Turns

variable {actor} {es : List Event} {s s' : Batcher} {payload : PublishPayload} {turn : Turn}

lemma kept_start (now : ℕ) : actor.Kept [] (.start now) where
  running := rfl
  timerActive_eq := rfl
  chosen _ h := absurd h List.not_mem_nil
  synced := rfl
  holds _ _ := ⟨[], .nil, rfl⟩

lemma Kept.publishOnce (h : actor.Kept es s) (hs : actor.publishOnce s payload turn = some s') :
    actor.Kept (es ++ [.recv (.sync payload) turn]) s' := by
  obtain ⟨index, hindex, hs⟩ := Option.bind_eq_some_iff.mp hs
  obtain rfl := Option.some.inj hs
  constructor
  · exact h.running
  · exact h.timerActive_eq
  · rw [List.forall_mem_append, List.forall_mem_singleton]
    exact ⟨h.chosen, Option.isSome_iff_exists.mpr ⟨index, hindex⟩⟩
  · rw [Batcher.publish, Batcher.requests_publishRaw, h.synced, produceRequest_single,
      filterMap_concat, syncRequest, hindex]
    rfl
  · intro topic index'
    rw [filterMap_concat]
    exact (h.holds topic index').push (Batcher.requests_publishRaw_ne _ _ nofun)
      (List.append_nil _).symm

omit [Crc] [Murmur2] in
lemma arm_eq (s : Batcher) (config : ProducerConfig) (now : ℕ) :
    (s.arm config now).timerActive = true ∧ (s.arm config now).batch = s.batch ∧
    (s.arm config now).published = s.published ∧ (s.arm config now).returned = s.returned := by
  rw [Batcher.arm]
  split_ifs with hactive
  · exact ⟨hactive, rfl, rfl, rfl⟩
  · exact ⟨rfl, rfl, rfl, rfl⟩

omit [Crc] in
/-- The record joins the others of its partition. -/
lemma get_push_asyncRecord {index : UInt16} (batch : Batch)
    (hindex : actor.calculateIndex payload turn.partition = some index) (topic : String)
    (index' : UInt16) :
    (batch.push payload.topic index (payload.toRecord turn.clock)).get topic index'
      = batch.get topic index' ++
        (actor.asyncRecord topic index' (.recv (.async payload) turn)).toList := by
  rw [asyncRecord, hindex]
  by_cases hkey : payload.topic = topic ∧ index = index'
  · obtain ⟨rfl, rfl⟩ := hkey
    rw [Groups.get_push, if_pos ⟨rfl, rfl⟩]
    rfl
  · rw [Groups.get_push_ne _ hkey, if_neg (by rwa [Option.some.injEq])]
    exact (List.append_nil _).symm

lemma Kept.enqueue (h : actor.Kept es s) (hs : actor.enqueue s payload turn = some s') :
    actor.Kept (es ++ [.recv (.async payload) turn]) s' := by
  obtain ⟨index, hindex, hs⟩ := Option.bind_eq_some_iff.mp hs
  set pushed : Batcher := { s with
    batch := s.batch.push payload.topic index (payload.toRecord turn.clock) } with hpushed
  obtain ⟨hactive, hbatch, hpublished, hreturned⟩ := arm_eq pushed actor.config turn.now
  set armed := pushed.arm actor.config turn.now with harmed
  have hrequests (cause : Cause) : armed.requests cause = s.requests cause := by
    rw [Batcher.requests, hpublished]
    rfl
  have hchosen : ∀ e ∈ es ++ [Event.recv (.async payload) turn], actor.Chosen e := by
    rw [List.forall_mem_append, List.forall_mem_singleton]
    exact ⟨h.chosen, Option.isSome_iff_exists.mpr ⟨index, hindex⟩⟩
  have hsynced : s.requests .sync
      = (es ++ [Event.recv (.async payload) turn]).filterMap actor.syncRequest := by
    rw [h.synced, filterMap_concat]
    exact (List.append_nil _).symm
  have hholds (topic : String) (index' : UInt16) : armed.Holds topic index'
      ((es ++ [Event.recv (.async payload) turn]).filterMap (actor.asyncRecord topic index')) := by
    rw [filterMap_concat]
    refine (h.holds topic index').push (hrequests .batch) ?_
    rw [hbatch, hpushed]
    exact get_push_asyncRecord s.batch hindex topic index'
  dsimp only at hs
  rw [← hpushed, ← harmed] at hs
  split_ifs at hs with hsize
  · -- the frame has reached the limit
    obtain rfl := Option.some.inj hs
    refine ⟨hreturned.trans h.running, rfl, hchosen, ?_, fun topic index' => ?_⟩
    · exact (Batcher.requests_publishRaw_ne armed _ (by decide)).trans ((hrequests .sync).trans hsynced)
    · exact (hholds topic index').flush (Batcher.requests_publishRaw armed .batch _) rfl
  · obtain rfl := Option.some.inj hs
    refine ⟨hreturned.trans h.running, ?_, hchosen, (hrequests .sync).trans hsynced, hholds⟩
    rw [hactive, hbatch, hpushed, Groups.isEmpty_push]
    rfl

lemma Kept.timer (h : actor.Kept es s) (hs : actor.step s (.timer turn) = some s') :
    actor.Kept (es ++ [.timer turn]) s' := by
  have hchosen : ∀ e ∈ es ++ [Event.timer turn], actor.Chosen e := by
    rw [List.forall_mem_append, List.forall_mem_singleton]
    exact ⟨h.chosen, trivial⟩
  have hsynced : s.requests .sync = (es ++ [Event.timer turn]).filterMap actor.syncRequest := by
    rw [h.synced, filterMap_concat]
    exact (List.append_nil _).symm
  have hholds (topic : String) (index : UInt16) :
      s.Holds topic index ((es ++ [Event.timer turn]).filterMap (actor.asyncRecord topic index)) := by
    rw [filterMap_concat]
    exact (h.holds topic index).push rfl (List.append_nil _).symm
  rw [step] at hs
  split_ifs at hs with hguard
  · obtain rfl := Option.some.inj hs
    refine ⟨h.running, rfl, hchosen, ?_, fun topic index => ?_⟩
    · exact (Batcher.requests_publishRaw_ne s _ (by decide)).trans hsynced
    · exact (hholds topic index).flush (Batcher.requests_publishRaw s .batch _) rfl
  · obtain rfl := Option.some.inj hs
    exact ⟨h.running, h.timerActive_eq, hchosen, hsynced, hholds⟩

/-- A turn of the loop that is not its last. -/
lemma Kept.step {e : Event} (h : actor.Kept es s) (he : e.isShutdown = false)
    (hs : actor.step s e = some s') : actor.Kept (es ++ [e]) s' := by
  cases e with
  | timer turn => exact h.timer hs
  | recv item turn =>
    have hrunning : ¬ s.returned = true := by rw [h.running]; exact Bool.false_ne_true
    cases item with
    | sync payload => exact h.publishOnce ((if_neg hrunning).symm.trans hs)
    | async payload => exact h.enqueue ((if_neg hrunning).symm.trans hs)
    | shutdown => cases he

/-- The loop goes on while partitions can be chosen. -/
lemma isSome_step {e : Event} (s : Batcher) (h : actor.Chosen e) : (actor.step s e).isSome := by
  cases e with
  | timer turn =>
    rw [step]
    split_ifs <;> rfl
  | recv item turn =>
    unfold step
    dsimp only
    split_ifs
    · rfl
    · cases item with
      | sync payload =>
        obtain ⟨index, hindex⟩ := Option.isSome_iff_exists.mp h
        exact Option.isSome_iff_exists.mpr ⟨_, Option.bind_eq_some_iff.mpr ⟨index, hindex, rfl⟩⟩
      | async payload =>
        obtain ⟨index, hindex⟩ := Option.isSome_iff_exists.mp h
        change (actor.enqueue s payload turn).isSome
        rw [ProducerActor.enqueue, hindex, Option.bind_eq_bind, Option.bind_some]
        dsimp only
        split_ifs <;> rfl
      | shutdown => rfl

omit [Crc] in
lemma chosen_of_known {e : Event} (h : actor.Known e) : actor.Chosen e := by
  have hindex (payload : PublishPayload) (drawn : ℕ)
      (hknown : ∃ t, actor.metadataImage.topics.find? (fun t => t.name = payload.topic) = some t ∧
        t.partitions ≠ []) : (actor.calculateIndex payload drawn).isSome := by
    obtain ⟨t, ht, hne⟩ := hknown
    rw [calculateIndex, ht, Option.bind_eq_bind, Option.bind_some,
      if_neg (List.length_eq_zero_iff.not.mpr hne)]
    cases payload.key <;> rfl
  cases e with
  | timer turn => trivial
  | recv item turn =>
    cases item with
    | sync payload => exact hindex payload turn.partition h
    | async payload => exact hindex payload turn.partition h
    | shutdown => trivial

end Turns

/-! ### The loop -/

section Loop

variable {now : ℕ} {es : List Event} {s : Batcher}

lemma batcher_concat (now : ℕ) (es : List Event) (e : Event) :
    actor.batcher now (es ++ [e]) = (actor.batcher now es).bind fun s => actor.step s e :=
  Run.run_concat _ _ _ _

variable {actor}

/-- As long as no command to shut down comes, the loop keeps what it is given. -/
lemma kept_batcher (hes : ∀ e ∈ es, e.isShutdown = false) (hs : actor.batcher now es = some s) :
    actor.Kept es s := by
  induction es using List.reverseRecOn generalizing s with
  | nil =>
    obtain rfl := Option.some.inj hs
    exact kept_start now
  | append_singleton es e ih =>
    rw [List.forall_mem_append, List.forall_mem_singleton] at hes
    rw [batcher_concat] at hs
    obtain ⟨s', hs', hstep⟩ := Option.bind_eq_some_iff.mp hs
    exact (ih hes.1 hs').step hes.2 hstep

lemma isSome_batcher (h : ∀ e ∈ es, actor.Known e) : (actor.batcher now es).isSome := by
  induction es using List.reverseRecOn with
  | nil => rfl
  | append_singleton es e ih =>
    rw [List.forall_mem_append, List.forall_mem_singleton] at h
    obtain ⟨s, hs⟩ := Option.isSome_iff_exists.mp (ih h.1)
    rw [batcher_concat, hs, Option.bind_some]
    exact isSome_step s (chosen_of_known h.2)

/-- Shutting down publishes what waits. -/
lemma Kept.shutdown (h : actor.Kept es s) (order : IterOrder) :
    (s.shutdown order).returned = true ∧
    (s.shutdown order).requests .sync = es.filterMap actor.syncRequest ∧
    ∀ topic index, ∃ chunks,
      List.Forall₂ (Carries topic index) ((s.shutdown order).requests .batch) chunks ∧
      chunks.flatten = es.filterMap (actor.asyncRecord topic index) := by
  rw [Batcher.shutdown]
  split_ifs with hempty
  · refine ⟨rfl, h.synced, fun topic index => ?_⟩
    obtain ⟨chunks, hchunks, hrs⟩ := h.holds topic index
    rw [Groups.get_of_isEmpty hempty, List.append_nil] at hrs
    exact ⟨chunks, hchunks, hrs⟩
  · refine ⟨rfl, ?_, fun topic index => ?_⟩
    · exact (Batcher.requests_publishRaw_ne s _ (by decide)).trans h.synced
    · have hflushed : { s.publish .batch order s.batch with batch := .empty }.Holds topic index _ :=
        (h.holds topic index).flush (Batcher.requests_publishRaw s .batch _) rfl
      obtain ⟨chunks, hchunks, hrs⟩ := hflushed
      exact ⟨chunks, hchunks, (List.append_nil _).symm.trans hrs⟩

end Loop

/-- For every sequence of commands and timer firings before a shutdown: at every turn the timer is
enabled exactly while records wait; when the loop returns, each synchronous command has had a
request of its own, and for each partition the requests of batches carry, one behind the other, the
records of the asynchronous commands; and the loop does return where the topics are known. -/
theorem batcher_lossless (now : ℕ) (es : List Event) (hes : ∀ e ∈ es, e.isShutdown = false)
    (last : Turn) :
    (∀ pre s, pre <+: es → actor.batcher now pre = some s →
      (s.timerActive = true ↔ s.batch.isEmpty = false)) ∧
    (∀ s, actor.batcher now (es ++ [.recv .shutdown last]) = some s →
      s.returned = true ∧ (∀ e ∈ es, actor.Chosen e) ∧
      s.requests .sync = es.filterMap actor.syncRequest ∧
      ∀ topic index, ∃ chunks,
        List.Forall₂ (Carries topic index) (s.requests .batch) chunks ∧
        chunks.flatten = es.filterMap (actor.asyncRecord topic index)) ∧
    ((∀ e ∈ es, actor.Known e) →
      (actor.batcher now (es ++ [.recv .shutdown last])).isSome) := by
  refine ⟨fun pre s hpre hs => ?_, fun s hs => ?_, fun hknown => ?_⟩
  · have hkept := kept_batcher (fun e he => hes e (hpre.subset he)) hs
    rw [hkept.timerActive_eq, Bool.not_eq_true']
  · rw [batcher_concat] at hs
    obtain ⟨s', hs', hstep⟩ := Option.bind_eq_some_iff.mp hs
    have hkept := kept_batcher hes hs'
    have hrunning : ¬ s'.returned = true := by
      rw [hkept.running]
      exact Bool.false_ne_true
    obtain rfl := Option.some.inj ((if_neg hrunning).symm.trans hstep)
    obtain ⟨hreturned, hsynced, hbatched⟩ := hkept.shutdown last.order
    exact ⟨hreturned, hkept.chosen, hsynced, hbatched⟩
  · apply isSome_batcher
    rw [List.forall_mem_append, List.forall_mem_singleton]
    exact ⟨hknown, trivial⟩

end ProducerActor

section Example

local instance : Crc := Crc.castagnoli

/-- No payload below has a key. -/
local instance : Murmur2 := ⟨fun _ _ => 0⟩

/-- One topic with two partitions, and a limit of a thousand bytes. -/
def ordersProducer : ProducerActor :=
  ⟨⟨0, [], 0, [⟨.none, "orders", [⟨.none, 0, 0, 0, 0, 0⟩, ⟨.none, 1, 0, 0, 0, 0⟩]⟩], .none⟩,
    ⟨50, 1000⟩⟩

/-- A turn in which the second partition is drawn. -/
def turnAt (now : ℕ) : Turn :=
  ⟨now, 0, 1, 0, .asKept⟩

def ordersEvents : List Event :=
  [.recv (.async ⟨"orders", none, "a"⟩) (turnAt 1), .recv (.sync ⟨"orders", none, "b"⟩) (turnAt 2),
    .recv (.async ⟨"orders", none, "c"⟩) (turnAt 3), .timer (turnAt 60),
    .recv (.async ⟨"orders", none, "d"⟩) (turnAt 61)]

/-- Two records are published by the timer, one at once, and one at shutdown. -/
theorem batcher_lossless_orders :
    ∃ s, ordersProducer.batcher 0 (ordersEvents ++ [.recv .shutdown (turnAt 70)]) = some s ∧
      s.returned = true ∧ (s.requests .sync).length = 1 ∧ (s.requests .batch).length = 2 ∧
      ∃ chunks, List.Forall₂ (Carries "orders" 1) (s.requests .batch) chunks ∧
        chunks.flatten = [.new 0 0 [] [97], .new 0 0 [] [99], .new 0 0 [] [100]] := by
  have hmain := ordersProducer.batcher_lossless 0 ordersEvents (by decide) (turnAt 70)
  have hrun : (ordersProducer.batcher 0 (ordersEvents ++ [.recv .shutdown (turnAt 70)])).isSome := by
    decide +kernel
  obtain ⟨s, hs⟩ := Option.isSome_iff_exists.mp hrun
  obtain ⟨hreturned, -, hsynced, hbatched⟩ := hmain.2.1 s hs
  have hcount : (ordersProducer.batcher 0 (ordersEvents ++ [.recv .shutdown (turnAt 70)])).map
      (fun s => (s.requests .batch).length) = some 2 := by
    decide +kernel
  rw [hs, Option.map_some, Option.some.injEq] at hcount
  obtain ⟨chunks, hchunks, hflatten⟩ := hbatched "orders" 1
  refine ⟨s, hs, hreturned, ?_, hcount, chunks, hchunks, hflatten.trans (by decide +kernel)⟩
  rw [hsynced]
  decide +kernel

end Example

end Producer

end Musil
