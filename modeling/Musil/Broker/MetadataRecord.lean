import Musil.Lib.Parser
import Musil.Lib.Utf8

/-!
# Metadata records

What the metadata log says about topics and partitions. A record is decoded from the front of its
bytes; a topic name that is no string makes it be skipped, and bytes that end early are a panic.
-/

namespace Musil.Broker

open Bytes Bytes.Reader Utf8

structure TopicRecord where
  name : String
  deriving DecidableEq, Repr

structure PartitionRecord where
  topicId : String
  partitionId : UInt16
  replicas : List Int32
  leader : Int32
  deriving DecidableEq, Repr

inductive MetadataRecord where
  | topic (t : TopicRecord)
  | partition (p : PartitionRecord)
  deriving DecidableEq, Repr

namespace MetadataRecord

def putName (name : String) : List UInt8 :=
  toBE 2 (asBytes name).length ++ asBytes name

def encode : MetadataRecord → List UInt8
  | topic t => [0] ++ putName t.name
  | partition p => [1] ++ putName p.topicId ++ toBE 2 p.partitionId.toNat ++
      (toBE 2 p.replicas.length ++ p.replicas.flatMap fun r => toBE 4 r.toUInt32.toNat) ++
      toBE 4 p.leader.toUInt32.toNat

def parseName : Parser Unit String := do
  let len ← getU16
  let bytes ← take len.toNat
  match fromUtf8 bytes with
  | some name => pure name
  | none => throw ()

/-- An unknown kind is rejected before anything else is read. -/
def parse : Parser Unit MetadataRecord := do
  let kind ← getU8
  if kind = 0 then
    let name ← parseName
    pure (.topic ⟨name⟩)
  else if kind = 1 then
    let topicId ← parseName
    let partitionId ← getU16
    let replicasLen ← getU16
    let replicas ← times replicasLen.toNat getI32
    let leader ← getI32
    pure (.partition ⟨topicId, partitionId, replicas, leader⟩)
  else throw ()

/-- Decode a record, if the bytes are one; there is no value when they end early. -/
def decode (buf : List UInt8) : Option (Option MetadataRecord) :=
  if buf = [] then some none
  else (parse.run.run buf).map fun r => r.1.toOption

/-! ### Encoded records are decoded -/

lemma accepts_parseName {name : String} (h : (asBytes name).length < 2 ^ 16) :
    Accepts parseName (putName name) name := by
  refine (reads_getU16_nat h).accepts.bind ?_
  rw [UInt16.toNat_ofNat_of_lt' h]
  refine (reads_take (asBytes name)).accepts.bind_nil ?_
  rw [fromUtf8_asBytes]
  exact Accepts.pure name

/-- The name and the number of replicas fit the fields for them. -/
def Fits : MetadataRecord → Prop
  | topic t => (asBytes t.name).length < 2 ^ 16
  | partition p => (asBytes p.topicId).length < 2 ^ 16 ∧ p.replicas.length < 2 ^ 16

lemma accepts_parse {r : MetadataRecord} (h : r.Fits) : Accepts parse r.encode r := by
  cases r with
  | topic t =>
    refine (reads_getU8 0).accepts.bind ?_
    exact (accepts_parseName h).bind_pure fun name => topic ⟨name⟩
  | partition p =>
    simp only [encode, List.append_assoc]
    refine (reads_getU8 1).accepts.bind ?_
    refine (accepts_parseName h.1).bind ?_
    refine (reads_getU16 _).accepts.bind ?_
    refine (reads_getU16_nat h.2).accepts.bind ?_
    rw [UInt16.toNat_ofNat_of_lt' h.2]
    refine (Reads.times fun r _ => reads_getI32 r).accepts.bind ?_
    exact (reads_getI32 _).accepts.bind_pure _

lemma decode_of_encode {r : MetadataRecord} (h : r.Fits) : decode r.encode = some (some r) := by
  have hne : r.encode ≠ [] := by cases r <;> exact List.cons_ne_nil _ _
  rw [decode, if_neg hne, (accepts_parse h).run_eq]
  rfl

end MetadataRecord

end Musil.Broker
