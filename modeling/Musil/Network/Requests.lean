import Musil.Lib.Canonical
import Musil.Lib.Framing
import Musil.Network.RoundTrip
import Musil.Network.Size

/-!
# Requests of clients

A client writes a frame with its request, and takes the first frame of what the broker sends for
the response. What the other side closes its stream before is an error; a response of another kind
is one for a metadata request, and a panic for the other requests.
-/

namespace Musil.Network

open Bytes Proto

/-! ### Frames on a stream -/

/-- The bytes behind the size of a frame. -/
def Frame.payload (f : Frame) : List UInt8 :=
  f.header.encode ++ f.body.encode

lemma Frame.encode_eq (f : Frame) : f.encode = putFrame f.payload := rfl

/-- The size of the frame is below the bound of its field. -/
def Frame.Small (f : Frame) : Prop :=
  f.payload.length < 2 ^ 32

instance (f : Frame) : Decidable f.Small :=
  inferInstanceAs (Decidable (_ < _))

section Decoders

variable [Crc] {f : Frame} {buf rest : List UInt8} {size : UInt32}

/-- What is decoded as a request is one, and of the kind that its header says. -/
lemma decode_eq_ok (h : Frame.decode buf size = some (.ok f, rest)) :
    f.size = size ∧ f.body.isRequest = true ∧ f.header.apiKey = f.body.apiKey := by
  obtain ⟨header, buf₁, -, h⟩ := Parser.run_bind_eq_ok h
  obtain ⟨body, buf₂, hbody, h⟩ := Parser.run_bind_eq_ok h
  obtain ⟨heq, -⟩ := run_pure_eq_some.mp h
  obtain rfl := Except.ok.inj heq
  refine ⟨rfl, ?_⟩
  dsimp only
  cases hkey : header.apiKey <;> rw [hkey] at hbody <;>
    obtain ⟨req, buf₃, -, hbody⟩ := Parser.run_bind_eq_ok hbody <;>
    obtain ⟨heq, -⟩ := run_pure_eq_some.mp hbody <;>
    obtain rfl := Except.ok.inj heq <;>
    exact ⟨rfl, rfl⟩

/-- A request is decoded from its payload. -/
lemma decode_payload (h : f.Fits) (hb : f.body.Bounded) (hreq : f.body.isRequest = true)
    (size : UInt32) : Frame.decode f.payload size = some (.ok { f with size := size }, []) := by
  have hbody := accepts_requestBody h.body hb hreq
  rw [← h.apiKey] at hbody
  exact ((accepts_parseHeader h.clientId).bind
    (hbody.bind_pure fun body => (⟨size, f.header, body⟩ : Frame))).run_eq

/-- A response is decoded from its payload. -/
lemma decodeResponse_payload (h : f.Fits) (hreq : f.body.isRequest = false) (size : UInt32) :
    Frame.decodeResponse f.payload size = some (.ok { f with size := size }, []) := by
  have hbody := accepts_responseBody h.body hreq
  rw [← h.apiKey] at hbody
  exact ((accepts_parseHeader h.clientId).bind
    (hbody.bind_pure fun body => (⟨size, f.header, body⟩ : Frame))).run_eq

end Decoders

/-! ### Clients -/

inductive RequestError where
  | ioErr
  | parseErr
  | formatErr
  deriving DecidableEq, Repr

/-- The request for the metadata of all topics. -/
def metadataRequest (correlationId : UInt32) : Frame :=
  Frame.new correlationId .metadata (.metadata ⟨[], true⟩)

/-- The request for one topic, from an offset on in each of the partitions. -/
def fetchRequest (correlationId : UInt32) (topic : String) (partitions : List (UInt16 × UInt64)) :
    Frame :=
  Frame.new correlationId .fetch (.fetch
    { replicaId := -1
      maxBytes := 4096
      topics := [⟨topic, partitions.map fun (p, fetchOffset) =>
        ⟨p.toUInt32, fetchOffset, 4096, 0⟩⟩] })

section Clients

variable [Crc]

/-- The response at the front of what comes before the other side closes its stream, and what comes
behind it. -/
def readResponse (stream : List UInt8) : Option (Except RequestError Frame × List UInt8) :=
  match getFrame stream with
  | none => some (.error .ioErr, [])
  | some (buf, rest) =>
    (Frame.decodeResponse buf (UInt32.ofNat buf.length)).map fun r =>
      (r.1.mapError fun _ => .parseErr, rest)

/-- What a metadata request returns. -/
def requestMetadata (stream : List UInt8) :
    Option (Except RequestError MetadataResponse × List UInt8) := do
  let (frame, rest) ← readResponse stream
  match frame with
  | .error e => pure (.error e, rest)
  | .ok frame => match frame.body with
    | .metadataResponse metadata => pure (.ok metadata, rest)
    | _ => pure (.error .formatErr, rest)

/-- What a fetch request returns, unless the code panics. -/
def requestFetch (stream : List UInt8) :
    Option (Except RequestError FetchResponse × List UInt8) := do
  let (frame, rest) ← readResponse stream
  match frame with
  | .error e => pure (.error e, rest)
  | .ok frame => match frame.body with
    | .fetchResponse response => pure (.ok response, rest)
    | _ => none

/-- What the producer gets for a request, unless the code panics. -/
def publishResponse (stream : List UInt8) :
    Option (Except RequestError ProduceResponse × List UInt8) := do
  let (frame, rest) ← readResponse stream
  match frame with
  | .error e => pure (.error e, rest)
  | .ok frame => match frame.body with
    | .produceResponse response => pure (.ok response, rest)
    | _ => none

lemma readResponse_encode {f : Frame} (h : f.Fits) (hreq : f.body.isRequest = false)
    (hsmall : f.Small) (rest : List UInt8) :
    readResponse (f.encode ++ rest)
      = some (.ok { f with size := UInt32.ofNat f.payload.length }, rest) := by
  rw [readResponse, f.encode_eq, getFrame_putFrame hsmall]
  dsimp only
  rw [decodeResponse_payload h hreq]
  rfl

end Clients

end Musil.Network
