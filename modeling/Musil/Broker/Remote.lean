import Musil.Broker.Connection
import Musil.Broker.Ownership

/-!
# Calls over the network

A client writes requests to its connection and reads the answers back. At any moment some of its
bytes have not come to the broker yet, and some of the broker's not to the client. What the client
has read are the answers to its first requests, one each and in their order: no request is handled
twice or in another's place, and no answer is taken for that of another request.
-/

namespace Musil.Broker

open Network Proto Bytes Run Threaded

/-- The frame as the other side reads it, with the size that stands before it. -/
def asRead (f : Frame) : Frame :=
  { f with size := UInt32.ofNat f.payload.length }

/-- A frame that the other side can read. -/
structure Sendable [Crc] (f : Frame) : Prop where
  fits : f.Fits
  small : f.Small

/-- A request that the broker can read. -/
structure SendableRequest [Crc] (f : Frame) : Prop extends Sendable f where
  isRequest : f.body.isRequest = true
  bounded : f.body.Bounded

/-- The responses that a client reads off its stream, and what is left of it. -/
inductive Responded [Crc] : List UInt8 → List Frame → List UInt8 → Prop
  | nil (bs : List UInt8) : Responded bs [] bs
  | cons {bs bs' rest : List UInt8} {f : Frame} {fs : List Frame}
      (head : readResponse bs = some (.ok f, bs')) (tail : Responded bs' fs rest) :
      Responded bs (f :: fs) rest

/-- The exchange is about the request, and an answer answers it. -/
structure Brings (f : Frame) (x : Frame × Option Frame) : Prop where
  request : x.1 = asRead f
  answer : ∀ res ∈ x.2, Answers f res

section Requests

variable [Crc] {c : Connection} {fs : List Frame}

omit [Crc] in
lemma flatMap_encode (fs : List Frame) :
    fs.flatMap Frame.encode = (fs.map Frame.payload).flatMap putFrame := by
  rw [List.flatMap_map]
  rfl

lemma Sent.req_eq {f req : Frame} (h : Sent f.payload req) (hf : SendableRequest f) :
    req = asRead f := by
  obtain ⟨rest, hdecode⟩ := h
  rw [decode_payload hf.fits hf.bounded hf.isRequest] at hdecode
  exact (Except.ok.inj (Prod.mk.inj (Option.some.inj hdecode)).1).symm

omit [Crc] in
/-- What answers a request as it has been read answers it as it has been sent. -/
lemma Answers.of_asRead {f res : Frame} (h : Answers (asRead f) res) : Answers f res :=
  ⟨h.header, h.body, h.built⟩

/-- The exchanges are about the first requests that the client has sent. -/
lemma Served.brings (h : Served c) (hfs : ∀ f ∈ fs, SendableRequest f)
    (hsent : c.received <+: fs.flatMap Frame.encode) :
    ∃ done waiting, fs = done ++ waiting ∧ List.Forall₂ Brings done c.exchanges := by
  obtain ⟨bufs, hframed, hbufs⟩ := h.requests
  rw [flatMap_encode] at hsent
  have hprefix : bufs <+: fs.map Frame.payload := by
    apply hframed.isPrefix_of_putFrame hsent
    intro p hp
    obtain ⟨f, hf, rfl⟩ := List.mem_map.mp hp
    exact (hfs f hf).small
  obtain ⟨later, hlater⟩ := hprefix
  obtain ⟨done, waiting, rfl, rfl, -⟩ := List.append_eq_map_iff.mp hlater
  refine ⟨done, waiting, rfl, ?_⟩
  rw [List.forall₂_map_left_iff, List.forall₂_map_right_iff] at hbufs
  apply (forall₂_mem hbufs).imp
  intro f x ⟨hf, hmem, hx⟩
  have hreq := hx.req_eq (hfs f (List.mem_append_left _ hf))
  refine ⟨hreq, fun res hres => ?_⟩
  have hanswers := (h.answers x hmem).2 res hres
  rw [hreq] at hanswers
  exact hanswers.of_asRead

end Requests

section Responses

variable [Crc] {xs : List (Frame × Option Frame)} {stream rest : List UInt8} {rs ress : List Frame}

/-- A frame that is decoded as the response that has been written for one. -/
lemma readResponse_eq_ok {f : Frame} (h : readResponse stream = some (.ok f, rest)) :
    ∃ buf tail, getFrame stream = some (buf, rest) ∧
      Frame.decodeResponse buf (UInt32.ofNat buf.length) = some (.ok f, tail) := by
  rw [readResponse] at h
  split at h
  · cases h
  · next buf rest' hget =>
    obtain ⟨⟨r, tail⟩, hdecode, heq⟩ := Option.map_eq_some_iff.mp h
    cases r with
    | error e => cases heq
    | ok f' =>
      cases heq
      exact ⟨buf, tail, hget, hdecode⟩

lemma Responded.framed (h : Responded stream rs rest) :
    ∃ bufs, Framed stream bufs rest ∧ List.Forall₂ (fun buf r =>
      ∃ tail, Frame.decodeResponse buf (UInt32.ofNat buf.length) = some (.ok r, tail)) bufs rs := by
  induction h with
  | nil bs => exact ⟨[], .nil bs, .nil⟩
  | cons head _ ih =>
    obtain ⟨buf, tail, hget, hdecode⟩ := readResponse_eq_ok head
    obtain ⟨bufs, hframed, hbufs⟩ := ih
    exact ⟨buf :: bufs, .cons hget hframed, .cons ⟨tail, hdecode⟩ hbufs⟩

/-- From a part of what has been written for some responses, only the first of them are read. -/
lemma Responded.isPrefix (h : Responded stream rs rest)
    (hstream : stream <+: ress.flatMap Frame.encode)
    (hress : ∀ res ∈ ress, Sendable res ∧ res.body.isRequest = false) :
    rs <+: ress.map asRead := by
  obtain ⟨bufs, hframed, hbufs⟩ := h.framed
  rw [flatMap_encode] at hstream
  have hprefix : bufs <+: ress.map Frame.payload := by
    apply hframed.isPrefix_of_putFrame hstream
    intro p hp
    obtain ⟨res, hres, rfl⟩ := List.mem_map.mp hp
    exact (hress res hres).1.small
  obtain ⟨later, hlater⟩ := hprefix
  obtain ⟨first, last, rfl, rfl, -⟩ := List.append_eq_map_iff.mp hlater
  rw [List.forall₂_map_left_iff] at hbufs
  have hrs : rs = first.map asRead := by
    rw [← List.forall₂_eq_eq_eq, List.forall₂_map_right_iff]
    apply List.Forall₂.flip
    apply (forall₂_mem hbufs).imp
    intro res r ⟨hmem, _, tail, hdecode⟩
    obtain ⟨hsend, hkind⟩ := hress res (List.mem_append_left _ hmem)
    rw [decodeResponse_payload hsend.fits hkind] at hdecode
    exact (Except.ok.inj (Prod.mk.inj (Option.some.inj hdecode)).1).symm
  rw [hrs, List.map_append]
  exact List.prefix_append _ _

omit [Crc] in
/-- While only the last request can be without an answer, the answers are those to the first ones. -/
lemma map_some_isPrefix (h : ∀ x ∈ xs.dropLast, x.2.isSome) :
    (xs.flatMap fun x => x.2.toList).map some <+: xs.map Prod.snd := by
  induction xs with
  | nil => exact List.prefix_rfl
  | cons x xs ih =>
    cases xs with
    | nil =>
      obtain ⟨call, _ | res⟩ := x
      · exact List.nil_prefix
      · exact List.prefix_rfl
    | cons y ys =>
      rw [List.dropLast_cons_cons, List.forall_mem_cons] at h
      obtain ⟨res, hres⟩ := Option.isSome_iff_exists.mp h.1
      rw [List.flatMap_cons, hres, List.map_cons, hres]
      exact (List.prefix_cons_inj _).mpr (ih h.2)

omit [Crc] in
lemma answerBytes_eq (xs : List (Frame × Option Frame)) :
    answerBytes xs = (xs.flatMap fun x => x.2.toList).flatMap Frame.encode :=
  List.flatMap_assoc.symm

end Responses

section Calls

variable [Crc] {c : Connection} {stream rest : List UInt8} {rs : List Frame}

lemma Served.sendable (h : Served c) (hsend : ∀ x ∈ c.exchanges, ∀ res ∈ x.2, Sendable res) :
    ∀ res ∈ c.exchanges.flatMap fun x => x.2.toList,
      Sendable res ∧ res.body.isRequest = false := by
  intro res hres
  obtain ⟨x, hx, hmem⟩ := List.mem_flatMap.mp hres
  rw [Option.mem_toList] at hmem
  exact ⟨hsend x hx res hmem, ((h.answers x hx).2 res hmem).body.isRequest.2⟩

lemma Served.stream_isPrefix (h : Served c) (hstream : stream <+: c.written) :
    stream <+: (c.exchanges.flatMap fun x => x.2.toList).flatMap Frame.encode := by
  rw [← answerBytes_eq]
  exact hstream.trans h.written

/-- The responses that have been read are the answers to the first requests. -/
lemma Served.responded (h : Served c) (hsend : ∀ x ∈ c.exchanges, ∀ res ∈ x.2, Sendable res)
    (hstream : stream <+: c.written) (hread : Responded stream rs rest) :
    rs.map some <+: c.exchanges.map fun x => x.2.map asRead := by
  have hanswers := hread.isPrefix (h.stream_isPrefix hstream) (h.sendable hsend)
  have hfirst := (map_some_isPrefix h.answered).map (Option.map asRead)
  rw [List.map_map, List.map_map] at hfirst
  have hmap := hanswers.map some
  rw [List.map_map] at hmap
  exact hmap.trans hfirst

/-- What a client reads next is a response, unless the stream ends before. -/
lemma Served.readResponse (h : Served c) (hsend : ∀ x ∈ c.exchanges, ∀ res ∈ x.2, Sendable res)
    (hstream : stream <+: c.written) (hread : Responded stream rs rest) :
    Network.readResponse rest = some (.error .ioErr, []) ∨
      ∃ r rest', Network.readResponse rest = some (.ok r, rest') := by
  cases hget : getFrame rest with
  | none =>
    left
    rw [Network.readResponse, hget]
  | some next =>
    right
    obtain ⟨buf, rest'⟩ := next
    obtain ⟨bufs, hframed, -⟩ := hread.framed
    have hwritten := h.stream_isPrefix hstream
    rw [flatMap_encode] at hwritten
    have hprefix := (hframed.concat hget).isPrefix_of_putFrame hwritten fun p hp => by
      obtain ⟨res, hres, rfl⟩ := List.mem_map.mp hp
      exact (h.sendable hsend res hres).1.small
    have hbuf := hprefix.subset (List.mem_append_right _ (List.mem_singleton_self buf))
    obtain ⟨res, hres, rfl⟩ := List.mem_map.mp hbuf
    obtain ⟨hsendable, hkind⟩ := h.sendable hsend res hres
    refine ⟨asRead res, rest', ?_⟩
    rw [Network.readResponse, hget]
    dsimp only
    rw [decodeResponse_payload hsendable.fits hkind]
    rfl

lemma Responded.concat (h : Responded stream rs rest) {r : Frame} {rest' : List UInt8}
    (hr : readResponse rest = some (.ok r, rest')) : Responded stream (rs ++ [r]) rest' := by
  induction h with
  | nil => exact .cons hr (.nil _)
  | cons head _ ih => exact .cons head (ih hr)

end Calls

/-! ### What a client has read -/

/-- In every run of the server, at any moment, with part of a client's requests on their way to the
broker and part of the answers on their way back: the broker has taken on the first of the requests,
each of them once and in their order, and the responses that the client has read are the answers to
the first of these. -/
theorem remote_calls [Crc] (brokers : List BrokerConfig) (b : BrokerState) (is : List ServerInput)
    {n : ℕ} {c : Connection}
    (hc : (run (Server.step brokers) (.listen b) is).connections[n]? = some c) {fs : List Frame}
    (hfs : ∀ f ∈ fs, SendableRequest f) (hsent : c.received <+: fs.flatMap Frame.encode) :
    ∃ done waiting, fs = done ++ waiting ∧ List.Forall₂ Brings done c.exchanges ∧
      ((∀ x ∈ c.exchanges, ∀ res ∈ x.2, Sendable res) →
        ∀ stream rs rest, stream <+: c.written → Responded stream rs rest →
          rs.map some <+: c.exchanges.map fun x => x.2.map asRead) := by
  have h := served_run brokers b is hc
  obtain ⟨done, waiting, hsplit, hdone⟩ := h.brings hfs hsent
  refine ⟨done, waiting, hsplit, hdone, ?_⟩
  intro hsend stream rs rest hstream hread
  exact h.responded hsend hstream hread

/-! ### The response that comes next -/

/-- The client of the request finds an answer to it at the front of the stream: it gets the response
that it expects, or the stream has ended. -/
def Understood [Crc] (f : Frame) (stream : List UInt8) : Prop :=
  match f.body with
  | .produce req => ∃ r rest, publishResponse stream = some (r, rest) ∧
      (r = .error .ioErr ∨ ∃ resp, r = .ok resp ∧ Mirrors (.produce req) (.produceResponse resp))
  | .fetch req => ∃ r rest, requestFetch stream = some (r, rest) ∧
      (r = .error .ioErr ∨ ∃ resp, r = .ok resp ∧ Mirrors (.fetch req) (.fetchResponse resp))
  | .metadata req => ∃ r rest, requestMetadata stream = some (r, rest) ∧
      (r = .error .ioErr ∨ ∃ resp, r = .ok resp ∧ Mirrors (.metadata req) (.metadataResponse resp))
  | _ => True

section Understood

variable [Crc] {f r : Frame} {stream rest : List UInt8}

lemma understood_of_ioErr (h : readResponse stream = some (.error .ioErr, rest)) :
    Understood f stream := by
  rw [Understood]
  split
  · refine ⟨.error .ioErr, rest, ?_, .inl rfl⟩
    rw [publishResponse, h]
    rfl
  · refine ⟨.error .ioErr, rest, ?_, .inl rfl⟩
    rw [requestFetch, h]
    rfl
  · refine ⟨.error .ioErr, rest, ?_, .inl rfl⟩
    rw [requestMetadata, h]
    rfl
  · trivial

lemma understood_of_ok (h : readResponse stream = some (.ok r, rest))
    (hbody : Mirrors f.body r.body) : Understood f stream := by
  rw [Understood]
  split
  · next req hreq =>
    rw [hreq] at hbody
    cases hres : r.body with
    | produceResponse resp =>
      rw [hres] at hbody
      refine ⟨.ok resp, rest, ?_, .inr ⟨resp, rfl, hbody⟩⟩
      rw [publishResponse, h, Option.bind_eq_bind, Option.bind_some]
      dsimp only
      rw [hres]
      rfl
    | _ =>
      rw [hres] at hbody
      exact hbody.elim
  · next req hreq =>
    rw [hreq] at hbody
    cases hres : r.body with
    | fetchResponse resp =>
      rw [hres] at hbody
      refine ⟨.ok resp, rest, ?_, .inr ⟨resp, rfl, hbody⟩⟩
      rw [requestFetch, h, Option.bind_eq_bind, Option.bind_some]
      dsimp only
      rw [hres]
      rfl
    | _ =>
      rw [hres] at hbody
      exact hbody.elim
  · next req hreq =>
    rw [hreq] at hbody
    cases hres : r.body with
    | metadataResponse resp =>
      rw [hres] at hbody
      refine ⟨.ok resp, rest, ?_, .inr ⟨resp, rfl, hbody⟩⟩
      rw [requestMetadata, h, Option.bind_eq_bind, Option.bind_some]
      dsimp only
      rw [hres]
      rfl
    | _ =>
      rw [hres] at hbody
      exact hbody.elim
  · trivial

omit [Crc] in
/-- The response that is read last answers the request in its place. -/
lemma Brings.mirrors {done : List Frame} {xs : List (Frame × Option Frame)} {rs : List Frame}
    (hdone : List.Forall₂ Brings done xs)
    (hread : (rs ++ [r]).map some <+: xs.map fun x => x.2.map asRead)
    (hf : done[rs.length]? = some f) : Mirrors f.body r.body := by
  have hx : (xs.map fun x => x.2.map asRead)[rs.length]? = some (some r) := by
    obtain ⟨later, hlater⟩ := hread
    rw [← hlater, List.map_append, List.append_assoc,
      List.getElem?_append_right (List.length_map some).le, List.length_map, Nat.sub_self]
    rfl
  rw [List.getElem?_map, Option.map_eq_some_iff] at hx
  obtain ⟨x, hx, hres⟩ := hx
  obtain ⟨res, hanswer, rfl⟩ := Option.map_eq_some_iff.mp hres
  have hzip : (f, x) ∈ done.zip xs :=
    List.mem_of_getElem? (List.getElem?_zip_eq_some.mpr ⟨hf, hx⟩)
  exact ((List.forall₂_iff_zip.mp hdone).2 hzip).answer res hanswer |>.body

end Understood

/-- In every run of the server, at any moment: a client that has read the responses to its earlier
requests gets the one that it expects for the next, or its stream ends; never an error of format, and
no response of another kind, on which it would panic. -/
theorem remote_calls_understood [Crc] (brokers : List BrokerConfig) (b : BrokerState)
    (is : List ServerInput) {n : ℕ} {c : Connection}
    (hc : (run (Server.step brokers) (.listen b) is).connections[n]? = some c) {fs : List Frame}
    (hfs : ∀ f ∈ fs, SendableRequest f) (hsent : c.received <+: fs.flatMap Frame.encode)
    (hsend : ∀ x ∈ c.exchanges, ∀ res ∈ x.2, Sendable res)
    {stream : List UInt8} {rs : List Frame} {rest : List UInt8} (hstream : stream <+: c.written)
    (hread : Responded stream rs rest) {f : Frame} (hf : fs[rs.length]? = some f) :
    Understood f rest := by
  have h := served_run brokers b is hc
  rcases h.readResponse hsend hstream hread with hend | ⟨r, rest', hr⟩
  · exact understood_of_ioErr hend
  · obtain ⟨done, waiting, rfl, hdone⟩ := h.brings hfs hsent
    have hanswers := h.responded hsend hstream (hread.concat hr)
    have hlength : rs.length < done.length := by
      have hle := hanswers.length_le
      rw [List.length_map, List.length_map, List.length_append, List.length_singleton] at hle
      rw [hdone.length_eq]
      exact hle
    rw [List.getElem?_append_left hlength] at hf
    exact understood_of_ok hr (Brings.mirrors hdone hanswers hf)

/-! ### A client with two requests -/

section Examples

local instance : Crc := Crc.castagnoli

lemma sendable_twoRequests : ∀ f ∈ twoRequests, SendableRequest f := by
  have hfits : MetadataRequest.Fits ⟨[], true⟩ := ⟨by decide, fun _ h => absurd h List.not_mem_nil⟩
  intro f hf
  have hf' : f = metadataRequest 1 ∨ f = metadataRequest 2 := by simpa [twoRequests] using hf
  rcases hf' with rfl | rfl
  · exact ⟨⟨⟨nofun, rfl, hfits⟩, by decide⟩, rfl, trivial⟩
  · exact ⟨⟨⟨nofun, rfl, hfits⟩, by decide⟩, rfl, trivial⟩

lemma received_answeredConnection :
    answeredConnection.received <+: twoRequests.flatMap Frame.encode := by
  decide +kernel

def noTopics (correlationId : UInt32) : Frame :=
  metadataFrame (metadataRequest correlationId).header ⟨0, [], 0, [], .none⟩

lemma exchanges_answeredConnection :
    answeredConnection.exchanges.map Prod.snd = [some (noTopics 1), some (noTopics 2)] :=
  rfl

lemma sendable_noTopics {correlationId : UInt32} (h : (noTopics correlationId).Small) :
    Sendable (noTopics correlationId) := by
  refine ⟨⟨nofun, rfl, ?_⟩, h⟩
  refine ⟨?_, fun _ h => absurd h List.not_mem_nil, ?_, fun _ h => absurd h List.not_mem_nil⟩
  · decide
  · decide

lemma sendable_exchanges : ∀ x ∈ answeredConnection.exchanges, ∀ res ∈ x.2, Sendable res := by
  intro x hx res hres
  have hmem := List.mem_map_of_mem (f := Prod.snd) hx
  rw [exchanges_answeredConnection, hres] at hmem
  have hcases : res = noTopics 1 ∨ res = noTopics 2 := by simpa using hmem
  rcases hcases with rfl | rfl
  · exact sendable_noTopics (by decide)
  · exact sendable_noTopics (by decide)

/-- Both requests are handled, and both responses can be read. -/
theorem remote_calls_twoRequests : ∃ done waiting, twoRequests = done ++ waiting ∧
    List.Forall₂ Brings done answeredConnection.exchanges ∧
    ∀ stream rs rest, stream <+: answeredConnection.written → Responded stream rs rest →
      rs.map some <+: answeredConnection.exchanges.map fun x => x.2.map asRead := by
  obtain ⟨done, waiting, hsplit, hdone, hread⟩ := remote_calls [] justStarted twoInputs
    answeredConnection_eq sendable_twoRequests received_answeredConnection
  exact ⟨done, waiting, hsplit, hdone, hread sendable_exchanges⟩

/-- The first response has been read off what has been written. -/
lemma responded_first : Responded answeredConnection.written [asRead (noTopics 1)]
    (noTopics 2).encode :=
  .cons rfl (.nil _)

theorem remote_calls_understood_second : Understood (metadataRequest 2) (noTopics 2).encode :=
  remote_calls_understood [] justStarted twoInputs answeredConnection_eq sendable_twoRequests
    received_answeredConnection sendable_exchanges List.prefix_rfl responded_first rfl

end Examples

end Musil.Broker
