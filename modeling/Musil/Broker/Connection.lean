import Musil.Lib.Run
import Musil.Broker.Tasks

/-!
# Connections

The server has one task for each connection, and all tasks share the broker. A task reads a frame,
has the broker handle the request and writes the answer before it reads the next frame. While a
handler waits for a partition, the tasks of other connections go on, so that requests of different
connections overlap in any way. Yet each client gets the answers to its own requests in their order,
however its bytes arrive and whatever the other clients do.
-/

namespace Musil.Broker

open Network Proto Bytes Run Threaded

inductive ConnectionError where
  | io
  | protocol (e : ParseError)
  deriving DecidableEq

/-- What a connection's task does next: it may also have left its loop, or panicked. -/
inductive Task where
  | reading
  | handling (request : Frame) (rest : Handler (Except HandleError Frame))
  | ended
  | panicked

/-- A connection with all bytes that have come from the client, those of them that have not been
read, those that have been written, and the requests that have been read, each with the answer once
it is written. -/
structure Connection where
  received : List UInt8
  readable : List UInt8
  closed : Bool
  written : List UInt8
  exchanges : List (Frame × Option Frame)
  task : Task

/-- The outcome of reading a frame: it may have to wait for more bytes. -/
inductive FrameRead where
  | waits
  | fails (e : ConnectionError)
  | panics
  | frame (f : Frame) (rest : List UInt8)

namespace Connection

def new : Connection := ⟨[], [], false, [], [], .reading⟩

/-- The client has closed its stream when a frame ends early, or the task waits. -/
def readFrame [Crc] (c : Connection) : FrameRead :=
  match getFrame c.readable with
  | none => if c.closed then .fails .io else .waits
  | some (buf, rest) =>
    match Frame.decode buf (UInt32.ofNat buf.length) with
    | none => .panics
    | some (.error e, _) => .fails (.protocol e)
    | some (.ok f, _) => .frame f rest

/-- Write an answer; the stream may break after some of its bytes, which ends the loop. -/
def writeFrame (c : Connection) (res : Frame) (breaks : Option ℕ) : Connection :=
  match breaks with
  | none => { c with written := c.written ++ res.encode, task := .reading }
  | some n => { c with written := c.written ++ res.encode.take n, task := .ended }

/-- The last request has got its answer. -/
def noteAnswer (c : Connection) (request res : Frame) : Connection :=
  { c with exchanges := c.exchanges.dropLast ++ [(request, some res)] }

end Connection

/-! ### The server -/

structure Server where
  shared : Shared
  connections : List Connection

/-- A connection is accepted; bytes come in, or the client closes its stream; the task of a
connection takes its next step; or the actor of a partition handles a command. -/
inductive ServerInput where
  | accept
  | receive (n : ℕ) (bytes : List UInt8)
  | close (n : ℕ)
  | serve (n : ℕ) (env : Readings) (breaks : Option ℕ)
  | work (n : ℕ)

namespace Server

/-- A broker that nobody has connected to. -/
def listen (b : BrokerState) : Server := ⟨.idle b, []⟩

variable [Crc] (brokers : List BrokerConfig)

/-- The next step of a connection's task. An error of the broker's is a panic. -/
def turn (s : Shared) (c : Connection) (env : Readings) (breaks : Option ℕ) :
    Shared × Connection :=
  match c.task with
  | .reading =>
    match c.readFrame with
    | .waits => (s, c)
    | .fails _ => (s, { c with task := .ended })
    | .panics => (s, { c with task := .panicked })
    | .frame request rest =>
      (s, { c with
        readable := rest
        exchanges := c.exchanges ++ [(request, none)]
        task := .handling request (Handler.handle brokers env request) })
  | .handling request (.done (.ok res)) => (s, (c.noteAnswer request res).writeFrame res breaks)
  | .handling _ (.done (.error _)) => (s, { c with task := .panicked })
  | .handling _ .panicked => (s, { c with task := .panicked })
  | .handling request (.step ready effect next) =>
    let (rest, s) := (Paused.step ready effect next).advance s
    (s, { c with task := .handling request rest })
  | .ended => (s, c)
  | .panicked => (s, c)

def step (s : Server) : ServerInput → Server
  | .accept => { s with connections := s.connections ++ [.new] }
  | .receive n bytes => { s with connections := s.connections.modify n fun c =>
      { c with received := c.received ++ bytes, readable := c.readable ++ bytes } }
  | .close n => { s with connections := s.connections.modify n fun c => { c with closed := true } }
  | .serve n env breaks =>
    match s.connections[n]? with
    | none => s
    | some c =>
      let (shared, c) := turn brokers s.shared c env breaks
      ⟨shared, s.connections.set n c⟩
  | .work n => { s with shared := s.shared.work n }

end Server

/-! ### What a connection has done -/

/-- The bytes of the answers. -/
def answerBytes (xs : List (Frame × Option Frame)) : List UInt8 :=
  xs.flatMap fun x => x.2.toList.flatMap Frame.encode

/-- The frame on the stream is the request. -/
def Sent [Crc] (buf : List UInt8) (req : Frame) : Prop :=
  ∃ rest, Frame.decode buf (UInt32.ofNat buf.length) = some (.ok req, rest)

/-- The frames that have been read off the stream are the requests, in order, and what has been
written are the answers to them, in order, up to some part of the last one. Only the last request
can be without an answer, and none is while the task reads. -/
structure Served [Crc] (c : Connection) : Prop where
  requests : ∃ bufs, Framed c.received bufs c.readable ∧
    List.Forall₂ Sent bufs (c.exchanges.map Prod.fst)
  written : c.written <+: answerBytes c.exchanges
  flushed : answerBytes c.exchanges.dropLast <+: c.written
  answered : ∀ x ∈ c.exchanges.dropLast, x.2.isSome
  answers : ∀ x ∈ c.exchanges, x.1.body.isRequest = true ∧ ∀ res ∈ x.2, Answers x.1 res
  reading : c.task = .reading →
    c.written = answerBytes c.exchanges ∧ ∀ x ∈ c.exchanges, x.2.isSome

/-- A connection whose task handles a request: that is the last one, the others have been answered,
and the handler can only give an answer to it. -/
structure Handling [Crc] (request : Frame) (rest : Handler (Except HandleError Frame))
    (c : Connection) : Prop where
  last : ∃ xs, c.exchanges = xs ++ [(request, none)] ∧ c.written = answerBytes xs ∧
    ∀ x ∈ xs, x.2.isSome
  gives : ∀ res, rest.Gives (.ok res) → Answers request res

/-- What is true of every connection, whatever the tasks do. -/
structure Connection.Inv [Crc] (c : Connection) : Prop extends Served c where
  handling : ∀ request rest, c.task = .handling request rest → Handling request rest c

section Inv

variable [Crc] {brokers : List BrokerConfig} {s : Server} {c c' : Connection}

omit [Crc] in
lemma answerBytes_concat (xs : List (Frame × Option Frame)) (x : Frame × Option Frame) :
    answerBytes (xs ++ [x]) = answerBytes xs ++ x.2.toList.flatMap Frame.encode := by
  rw [answerBytes, List.flatMap_append, List.flatMap_singleton]
  rfl

namespace Connection.Inv

lemma new : Connection.new.Inv where
  requests := ⟨[], .nil _, .nil⟩
  written := List.nil_prefix
  flushed := List.nil_prefix
  answered _ hx := absurd hx List.not_mem_nil
  answers _ hx := absurd hx List.not_mem_nil
  reading _ := ⟨rfl, fun _ hx => absurd hx List.not_mem_nil⟩
  handling _ _ h := by cases h

/-- More bytes come in. -/
lemma receive (h : c.Inv) (bytes : List UInt8) :
    Inv { c with received := c.received ++ bytes, readable := c.readable ++ bytes } := by
  obtain ⟨bufs, hframed, hsent⟩ := h.requests
  exact ⟨⟨⟨bufs, hframed.append bytes, hsent⟩, h.written, h.flushed, h.answered, h.answers,
      h.reading⟩,
    fun request rest htask => ⟨(h.handling request rest htask).last,
      (h.handling request rest htask).gives⟩⟩

lemma close (h : c.Inv) : Inv { c with closed := true } :=
  ⟨⟨h.requests, h.written, h.flushed, h.answered, h.answers, h.reading⟩,
    fun request rest htask => ⟨(h.handling request rest htask).last,
      (h.handling request rest htask).gives⟩⟩

/-- The task leaves its loop, or it panics. -/
lemma stop (h : c.Inv) {task : Task} (hover : task = .ended ∨ task = .panicked) :
    Inv { c with task := task } := by
  have hread : task ≠ .reading := by
    rcases hover with rfl | rfl <;> simp
  have hhandle : ∀ request rest, task ≠ .handling request rest := by
    rcases hover with rfl | rfl <;> simp
  exact ⟨⟨h.requests, h.written, h.flushed, h.answered, h.answers,
    fun htask => absurd htask hread⟩, fun request rest htask => absurd htask (hhandle request rest)⟩

/-- A request is read. -/
lemma read (h : c.Inv) (htask : c.task = .reading) {rest : List UInt8} {request : Frame}
    (hread : c.readFrame = .frame request rest) (env : Readings) :
    Inv { c with
      readable := rest
      exchanges := c.exchanges ++ [(request, none)]
      task := .handling request (Handler.handle brokers env request) } := by
  obtain ⟨bufs, hframed, hsent⟩ := h.requests
  obtain ⟨hwritten, hall⟩ := h.reading htask
  rw [Connection.readFrame] at hread
  split at hread
  · split_ifs at hread
  · next buf rest' hget =>
    split at hread
    · cases hread
    · cases hread
    · next f tail hdecode =>
      cases hread
      refine ⟨⟨⟨bufs ++ [buf], hframed.concat hget, ?_⟩, ?_, ?_, ?_, ?_, ?_⟩, ?_⟩
      · rw [List.map_append]
        exact List.rel_append hsent (.cons ⟨tail, hdecode⟩ .nil)
      · rw [answerBytes_concat]
        exact h.written.trans (List.prefix_append _ _)
      · rw [List.dropLast_concat, ← hwritten]
      · rw [List.dropLast_concat]
        exact hall
      · rw [List.forall_mem_append, List.forall_mem_singleton]
        refine ⟨h.answers, (decode_eq_ok hdecode).2.1, fun res hres => ?_⟩
        cases hres
      · intro hreading
        cases hreading
      · intro request' rest' hhandling
        cases hhandling
        exact ⟨⟨c.exchanges, rfl, hwritten, hall⟩, fun res => Handler.handle_answers⟩

/-- The handler takes a step. -/
lemma advance (h : c.Inv) {request : Frame} {rest : Handler (Except HandleError Frame)}
    (htask : c.task = .handling request rest) (s : Shared) :
    Inv { c with task := .handling request (rest.advance s).1 } := by
  obtain ⟨hlast, hgives⟩ := h.handling request rest htask
  refine ⟨⟨h.requests, h.written, h.flushed, h.answered, h.answers, fun hreading => ?_⟩, ?_⟩
  · cases hreading
  · intro request' rest' hhandling
    cases hhandling
    exact ⟨hlast, fun res hres => hgives res hres.of_advance⟩

/-- The answer is written. -/
lemma write (h : c.Inv) {request res : Frame}
    (htask : c.task = .handling request (.done (.ok res))) (breaks : Option ℕ) :
    ((c.noteAnswer request res).writeFrame res breaks).Inv := by
  obtain ⟨⟨xs, hxs, hwritten, hall⟩, hgives⟩ := h.handling request _ htask
  have hexchanges : (c.noteAnswer request res).exchanges = xs ++ [(request, some res)] := by
    rw [Connection.noteAnswer, hxs, List.dropLast_concat]
  have hrequests : ∃ bufs, Framed c.received bufs c.readable ∧
      List.Forall₂ Sent bufs ((c.noteAnswer request res).exchanges.map Prod.fst) := by
    obtain ⟨bufs, hframed, hsent⟩ := h.requests
    refine ⟨bufs, hframed, ?_⟩
    rw [hexchanges]
    rw [hxs] at hsent
    rwa [List.map_append] at hsent ⊢
  have hflushed : answerBytes (c.noteAnswer request res).exchanges.dropLast = c.written := by
    rw [hexchanges, List.dropLast_concat, hwritten]
  have hanswered : ∀ x ∈ (c.noteAnswer request res).exchanges.dropLast, x.2.isSome := by
    rw [hexchanges, List.dropLast_concat]
    exact hall
  have hanswers : ∀ x ∈ (c.noteAnswer request res).exchanges,
      x.1.body.isRequest = true ∧ ∀ res ∈ x.2, Answers x.1 res := by
    have hold := h.answers
    rw [hxs, List.forall_mem_append, List.forall_mem_singleton] at hold
    rw [hexchanges, List.forall_mem_append, List.forall_mem_singleton]
    refine ⟨hold.1, hold.2.1, fun res' hres' => ?_⟩
    cases hres'
    exact hgives res (.done _)
  have hbytes : answerBytes (c.noteAnswer request res).exchanges = c.written ++ res.encode := by
    rw [hexchanges, answerBytes_concat, hwritten, Option.toList_some, List.flatMap_singleton]
  cases breaks with
  | none =>
    refine ⟨⟨hrequests, hbytes ▸ List.prefix_rfl, hflushed ▸ List.prefix_append _ _, hanswered,
      hanswers, fun _ => ⟨hbytes.symm, ?_⟩⟩, fun _ _ hhandling => by cases hhandling⟩
    change ∀ x ∈ (c.noteAnswer request res).exchanges, x.2.isSome
    rw [hexchanges, List.forall_mem_append, List.forall_mem_singleton]
    exact ⟨hall, rfl⟩
  | some k =>
    refine ⟨⟨hrequests, ?_, hflushed ▸ List.prefix_append _ _, hanswered, hanswers,
      fun hreading => by cases hreading⟩, fun _ _ hhandling => by cases hhandling⟩
    change c.written ++ res.encode.take k <+: answerBytes (c.noteAnswer request res).exchanges
    rw [hbytes, List.prefix_append_right_inj]
    exact List.take_prefix k res.encode

lemma turn (h : c.Inv) (s : Shared) (env : Readings) (breaks : Option ℕ) :
    (Server.turn brokers s c env breaks).2.Inv := by
  rw [Server.turn]
  split
  · next htask =>
    cases hread : c.readFrame with
    | waits => exact h
    | fails e => exact h.stop (.inl rfl)
    | panics => exact h.stop (.inr rfl)
    | frame request rest => exact h.read htask hread env
  · next request res htask => exact h.write htask breaks
  · exact h.stop (.inr rfl)
  · exact h.stop (.inr rfl)
  · next request ready effect next htask => exact h.advance htask s
  · exact h
  · exact h

end Connection.Inv

lemma Server.inv_step (h : ∀ c ∈ s.connections, c.Inv) (i : ServerInput) :
    ∀ c ∈ (s.step brokers i).connections, c.Inv := by
  have hmodify : ∀ (n : ℕ) (f : Connection → Connection), (∀ c : Connection, c.Inv → (f c).Inv) →
      ∀ c ∈ s.connections.modify n f, c.Inv := by
    intro n f hf c hc
    obtain ⟨k, hk⟩ := List.mem_iff_getElem?.mp hc
    rw [List.getElem?_modify] at hk
    obtain ⟨d, hd, rfl⟩ := Option.map_eq_some_iff.mp hk
    have hold := h d (List.mem_of_getElem? hd)
    split_ifs
    · exact hf d hold
    · exact hold
  cases i with
  | accept =>
    intro c hc
    rcases List.mem_append.mp hc with hold | hnew
    · exact h c hold
    · obtain rfl := List.mem_singleton.mp hnew
      exact .new
  | receive n bytes => exact hmodify n _ fun c hc => hc.receive bytes
  | close n => exact hmodify n _ fun c hc => hc.close
  | work n => exact h
  | serve n env breaks =>
    rw [Server.step]
    cases hn : s.connections[n]? with
    | none => exact h
    | some c =>
      intro d hd
      rcases List.mem_or_eq_of_mem_set hd with hold | rfl
      · exact h d hold
      · exact (h c (List.mem_of_getElem? hn)).turn s.shared env breaks

/-- Every connection has been served, in every run. -/
lemma served_run (brokers : List BrokerConfig) (b : BrokerState) (is : List ServerInput) {n : ℕ}
    (hc : (run (Server.step brokers) (.listen b) is).connections[n]? = some c) : Served c := by
  have h : ∀ c ∈ (run (Server.step brokers) (.listen b) is).connections, c.Inv :=
    run_invariant' (P := fun s : Server => ∀ c ∈ s.connections, c.Inv)
      (fun _ i h => Server.inv_step h i) (fun _ hc => absurd hc List.not_mem_nil) is
  exact (h c (List.mem_of_getElem? hc)).toServed

omit [Crc] in
/-- The answers to exchanges that all have one. -/
lemma exists_answers {xs : List (Frame × Option Frame)} (hall : ∀ x ∈ xs, x.2.isSome)
    (h : ∀ x ∈ xs, ∀ res ∈ x.2, Answers x.1 res) :
    ∃ ress, List.Forall₂ Answers (xs.map Prod.fst) ress ∧
      answerBytes xs = ress.flatMap Frame.encode := by
  induction xs with
  | nil => exact ⟨[], .nil, rfl⟩
  | cons x xs ih =>
    rw [List.forall_mem_cons] at hall h
    obtain ⟨res, hres⟩ := Option.isSome_iff_exists.mp hall.1
    obtain ⟨ress, hress, hbytes⟩ := ih hall.2 h.2
    refine ⟨res :: ress, .cons (h.1 res hres) hress, ?_⟩
    rw [answerBytes, List.flatMap_cons, hres, Option.toList_some, List.flatMap_singleton,
      List.flatMap_cons, ← hbytes]
    rfl

end Inv

/-- The answers `ress` are those to the first requests, in order, and at most one request is left;
`part` is a part of the answer to that one. -/
structure Answered (reqs ress : List Frame) (part : List UInt8) : Prop where
  answers : List.Forall₂ Answers (reqs.take ress.length) ress
  left : reqs.length ≤ ress.length + 1
  part : part = [] ∨ ∃ req ∈ reqs[ress.length]?, ∃ res, Answers req res ∧ part <+: res.encode

lemma Served.answered_all [Crc] {c : Connection} (h : Served c)
    (hall : ∀ x ∈ c.exchanges, x.2.isSome) (hwritten : c.written = answerBytes c.exchanges) :
    ∃ ress, Answered (c.exchanges.map Prod.fst) ress [] ∧ ress.length = c.exchanges.length ∧
      c.written = ress.flatMap Frame.encode := by
  obtain ⟨ress, hress, hbytes⟩ := exists_answers hall fun x hx => (h.answers x hx).2
  have hlength : (c.exchanges.map Prod.fst).length = ress.length := hress.length_eq
  refine ⟨ress, ⟨?_, hlength.le.trans (Nat.le_succ _), .inl rfl⟩, ?_, hwritten.trans hbytes⟩
  · rwa [← hlength, List.take_length]
  · rw [← hlength, List.length_map]

/-- What has been written, when the task may have come to an end in the middle of an answer. -/
lemma Served.exists_answered [Crc] {c : Connection} (h : Served c) :
    ∃ ress part, Answered (c.exchanges.map Prod.fst) ress part ∧
      c.written = ress.flatMap Frame.encode ++ part := by
  rcases List.eq_nil_or_concat c.exchanges with hnil | ⟨xs, x, hxs⟩
  · have hwritten := h.written
    rw [hnil] at hwritten ⊢
    exact ⟨[], [], ⟨.nil, Nat.zero_le _, .inl rfl⟩, List.prefix_nil.mp hwritten⟩
  · obtain ⟨-, hwritten, hflushed, hall, hanswers, -⟩ := h
    rw [hxs, List.concat_eq_append] at hwritten hflushed hall hanswers ⊢
    rw [List.dropLast_concat] at hflushed hall
    rw [answerBytes_concat] at hwritten
    obtain ⟨part, hpart⟩ := hflushed
    rw [← hpart, List.prefix_append_right_inj] at hwritten
    rw [List.forall_mem_append, List.forall_mem_singleton] at hanswers
    obtain ⟨ress, hress, hbytes⟩ := exists_answers hall fun y hy => (hanswers.1 y hy).2
    have hlength : (xs.map Prod.fst).length = ress.length := hress.length_eq
    refine ⟨ress, part, ⟨?_, ?_, ?_⟩, by rw [← hpart, hbytes]⟩
    · rwa [List.map_append, List.take_append_of_le_length hlength.ge, ← hlength, List.take_length]
    · rw [List.map_append, List.length_append, hlength]
      exact le_rfl
    · cases hx : x.2 with
      | none =>
        rw [hx] at hwritten
        exact .inl (List.prefix_nil.mp hwritten)
      | some res =>
        rw [hx, Option.toList_some, List.flatMap_singleton] at hwritten
        refine .inr ⟨x.1, ?_, res, hanswers.2.2 res hx, hwritten⟩
        rw [List.map_append, List.getElem?_append_right hlength.le, hlength, Nat.sub_self]
        rfl

/-- Whatever connections are opened, however their bytes come in and however their tasks and the
actors of the partitions take turns: the frames that have been read off the bytes of a connection are
requests, and what has been written to it are the answers to these, one for each and in their order;
the last one may be missing, or broken off when the task has ended, but not while the task reads. -/
theorem served_in_order [Crc] (brokers : List BrokerConfig) (b : BrokerState)
    (is : List ServerInput) (n : ℕ) :
    ∀ c ∈ (run (Server.step brokers) (.listen b) is).connections[n]?,
      ∃ bufs reqs ress part, Framed c.received bufs c.readable ∧ List.Forall₂ Sent bufs reqs ∧
        Answered reqs ress part ∧ c.written = ress.flatMap Frame.encode ++ part ∧
        (c.task = .reading → ress.length = reqs.length ∧ part = []) := by
  intro c hc
  have h := served_run brokers b is hc
  obtain ⟨bufs, hframed, hsent⟩ := h.requests
  by_cases htask : c.task = .reading
  · obtain ⟨hwritten, hall⟩ := h.reading htask
    obtain ⟨ress, hress, hlength, hbytes⟩ := h.answered_all hall hwritten
    refine ⟨bufs, _, ress, [], hframed, hsent, hress, ?_, fun _ => ⟨?_, rfl⟩⟩
    · rw [hbytes, List.append_nil]
    · rw [hlength, List.length_map]
  · obtain ⟨ress, part, hanswered, hbytes⟩ := h.exists_answered
    exact ⟨bufs, _, ress, part, hframed, hsent, hanswered, hbytes, fun hread => absurd hread htask⟩

/-! ### A client with two requests -/

section Examples

local instance : Crc := Crc.castagnoli

/-- Nothing moves in the surroundings. -/
def quiet : Surroundings :=
  ⟨⟨fun _ => 0, 0, .asKept⟩, fun _ _ => ⟨0, []⟩⟩

/-- A broker that has just been started for the first time. -/
def justStarted : BrokerState :=
  run (BrokerState.step "data") (.down blank) [.start .asKept]

def twoRequests : List Frame :=
  [metadataRequest 1, metadataRequest 2]

/-- The requests come in two pieces, of which the first ends within the first request. -/
def twoInputs : List ServerInput :=
  [.accept, .receive 0 ((twoRequests.flatMap Frame.encode).take 10),
    .serve 0 quiet.toReadings none, .accept,
    .receive 0 ((twoRequests.flatMap Frame.encode).drop 10)] ++
    List.replicate 6 (.serve 0 quiet.toReadings none)

/-- The connection of the client at the end. -/
def answeredConnection : Connection :=
  ((run (Server.step []) (.listen justStarted) twoInputs).connections[0]?).getD .new

lemma answeredConnection_eq : (run (Server.step []) (.listen justStarted) twoInputs).connections[0]?
    = some answeredConnection :=
  rfl

/-- Both requests have been answered. -/
theorem served_in_order_twoRequests : ∃ bufs reqs ress part,
    Framed answeredConnection.received bufs answeredConnection.readable ∧
      List.Forall₂ Sent bufs reqs ∧ Answered reqs ress part ∧
      answeredConnection.written = ress.flatMap Frame.encode ++ part ∧
      ress.length = reqs.length ∧ part = [] := by
  obtain ⟨bufs, reqs, ress, part, hframed, hsent, hanswered, hwritten, hreading⟩ :=
    served_in_order [] justStarted twoInputs 0 answeredConnection answeredConnection_eq
  exact ⟨bufs, reqs, ress, part, hframed, hsent, hanswered, hwritten, hreading rfl⟩

end Examples

end Musil.Broker
