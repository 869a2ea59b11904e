import Musil.Broker.Stock
import Musil.Producer.Batcher
import Musil.Proto.FromRecords

/-!
# What producers publish

The batches in a producer's requests are built from records. They count their records, and their
lengths and checksums are right, so a broker may be given them.
-/

namespace Musil.Producer

open Network Proto RecordBatch Broker
open Consumer (Produced)

section Built

variable {rs : List Record}

/-- Record `i` of the batch is made from record `i` of those that were given. -/
lemma exists_of_placedRecords {base : UInt64} {r : Record} {i : ℕ}
    (h : (placedRecords base rs)[i]? = some r) : ∃ r', rs[i]? = some r' ∧ r = r'.placed base i := by
  have hi : i < rs.length := by
    have hlt := (List.getElem?_eq_some_iff.mp h).1
    rwa [placedRecords, List.length_map, List.length_zipIdx] at hlt
  have hr' : rs[i]? = some rs[i] := List.getElem?_eq_getElem hi
  refine ⟨rs[i], hr', ?_⟩
  exact Option.some.inj (h.symm.trans (getElem?_placedRecords base hr'))

variable [Crc]

/-- A batch that is built from records, with the records that are read from it. -/
def produced (rs : List Record) (hne : rs ≠ []) (hsized : ∀ r ∈ rs, r.Sized)
    (h : 49 + (rs.flatMap Record.encode).length < 2 ^ 32) : Produced where
  batch := fromRecords rs
  recs := placedRecords (fromRecords rs).baseTimestamp rs
  carries := by
    refine ⟨?_, records_fromRecords rs, ?_⟩
    · rw [← length_placedRecords (fromRecords rs).baseTimestamp, ← records_fromRecords] at h
      show (49 + UInt32.ofNat (fromRecords rs).records.length).toNat = _
      rw [UInt32.toNat_add, UInt32.toNat_ofNat_of_lt' ((Nat.le_add_left _ _).trans_lt h)]
      exact Nat.mod_eq_of_lt h
    · rw [placedRecords, List.length_map, List.length_zipIdx]
      exact UInt32.toNat_ofNat_of_lt' ((length_lt_of_total h).trans (by decide))
  recs_ne := by
    intro hnil
    rw [placedRecords, List.map_eq_nil_iff, List.zipIdx_eq_nil_iff] at hnil
    exact hne hnil
  sized r hr := by
    obtain ⟨i, hi⟩ := List.mem_iff_getElem?.mp hr
    obtain ⟨r', hr', rfl⟩ := exists_of_placedRecords hi
    rw [Record.Sized, length_encode_placed]
    exact hsized r' (List.mem_of_getElem? hr')
  deltas i r hr := by
    obtain ⟨r', hr', rfl⟩ := exists_of_placedRecords hr
    have hlt := (List.getElem?_eq_some_iff.mp hr').1.trans (length_lt_of_total h)
    exact UInt64.toNat_ofNat_of_lt' (hlt.trans (by decide))
  crc_eq := rfl

/-- The groups of records that a producer has collected are of records with right lengths, and small
enough for one batch each. -/
def Fillable (value : Batch) : Prop :=
  ∀ t ∈ value.entries.entries, ∀ p ∈ t.2.entries,
    (∀ r ∈ p.2, r.Sized) ∧ 49 + (p.2.flatMap Record.encode).length < 2 ^ 32

instance (value : Batch) : Decidable (Fillable value) :=
  inferInstanceAs (Decidable (∀ t ∈ value.entries.entries, ∀ p ∈ t.2.entries, _ ∧ _))

/-- A request that a producer publishes is one that a broker may be given, while nobody else sends
commands to the partitions. -/
lemma admissible_produceRequest (order : IterOrder) {value : Batch} (hvalue : Fillable value)
    {Q : TopicPartition → Record → Prop} (hQ : ∀ t ∈ value.entries.entries, ∀ p ∈ t.2.entries,
      ∀ r ∈ placedRecords (fromRecords p.2).baseTimestamp p.2, Q ⟨t.1, p.1⟩ r)
    {waiting : Host → TopicPartition → Waiting} (hwaiting : ∀ w tp, (waiting w tp).others = []) :
    AdmissibleRequest Q waiting (produceRequest order value) := by
  intro t ht p hp
  obtain ⟨e, he, rfl⟩ := List.mem_map.mp ((order.topics_perm _).mem_iff.mp ht)
  obtain ⟨e', he', rfl⟩ := List.mem_map.mp ((order.partitions_perm _).mem_iff.mp hp)
  obtain ⟨hsized, hsmall⟩ := hvalue e he e' he'
  have hne : e'.2 ≠ [] := by
    intro hnil
    refine value.filled e.1 e.2 (AList.mem_lookup_iff.mpr he) e'.1 ?_
    exact AList.mem_lookup_iff.mpr (hnil ▸ he')
  refine ⟨⟨produced e'.2 hne hsized hsmall, rfl, hQ e he e' he'⟩, fun w c hc => ?_⟩
  rw [hwaiting] at hc
  exact absurd hc List.not_mem_nil

end Built

end Musil.Producer
