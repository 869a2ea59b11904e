import Mathlib.Data.List.Basic
import Std.Data.String.ToNat

/-!
# Directories of partitions

A partition works in the directory whose name its topic and its partition id give. The topic is a
string of a client: with a slash in it, the name is a path with components of its own. Names
without a slash give different partitions different directories.
-/

namespace Musil.Broker

@[ext]
structure TopicPartition where
  topicId : String
  partitionId : UInt16
  deriving DecidableEq, Repr

/-- Joining an absolute path replaces the base. -/
def joinPath (base path : String) : String :=
  if path.startsWith "/" then path
  else if base.endsWith "/" then base ++ path
  else base ++ "/" ++ path

/-- The names on the way from the root to a directory. -/
abbrev Directory := List String

def components (path : String) : List String :=
  (path.toList.splitOn '/').map String.ofList

/-- The next component of a path: `.` stays in a directory and `..` leaves it. -/
def enter (d : Directory) (name : String) : Directory :=
  if name = "" ∨ name = "." then d
  else if name = ".." then d.dropLast
  else d ++ [name]

/-- The directory that a path leads to. A relative path starts at the root as well: the broker runs
there, and there are no symbolic links. -/
def resolve (path : String) : Directory :=
  (components path).foldl enter []

namespace TopicPartition

/-- The name that a partition gives its directory. -/
def directoryName (p : TopicPartition) : String :=
  p.topicId ++ "-" ++ toString p.partitionId.toNat

def directory (baseDir : String) (p : TopicPartition) : Directory :=
  resolve (joinPath baseDir p.directoryName)

/-- The topic is no path. -/
def Plain (p : TopicPartition) : Prop :=
  '/' ∉ p.topicId.toList

end TopicPartition

/-! ### Paths -/

lemma components_eq_singleton {name : String} (h : '/' ∉ name.toList) : components name = [name] := by
  rw [components, List.splitOn_eq_singleton h, List.map_singleton, String.ofList_toList]

lemma components_append (base path : String) :
    components (base ++ "/" ++ path) = components base ++ components path := by
  simp only [components, String.toList_append, List.append_assoc]
  rw [← List.map_append, ← List.splitOn_append_cons_self]
  rfl

/-- Joining a name without a slash adds it to the base. -/
lemma resolve_joinPath (base : String) {name : String} (h : '/' ∉ name.toList) :
    resolve (joinPath base name) = enter (resolve base) name := by
  have hstart : ¬ name.startsWith "/" := by
    intro hstart
    obtain ⟨rest, hrest⟩ := String.startsWith_string_iff.mp hstart
    exact h (hrest ▸ List.mem_append_left _ (List.mem_singleton.mpr rfl))
  rw [joinPath, if_neg hstart]
  split
  · next hend =>
    obtain ⟨front, hfront⟩ := String.Slice.endsWith_string_iff.mp hend
    rw [String.copy_toSlice] at hfront
    obtain rfl : base = String.ofList front ++ "/" := by
      rw [← String.toList_inj, String.toList_append, String.toList_ofList, hfront]
    have hempty := components_append (String.ofList front) ""
    rw [String.append_empty, components_eq_singleton (show '/' ∉ "".toList from nofun)] at hempty
    simp only [resolve, hempty, components_append, components_eq_singleton h, List.foldl_append]
    rfl
  · simp only [resolve, components_append, components_eq_singleton h, List.foldl_append]
    rfl

/-! ### Names of directories -/

namespace TopicPartition

variable {p q : TopicPartition}

lemma directoryName_toList (p : TopicPartition) :
    p.directoryName.toList = p.topicId.toList ++ '-' :: p.partitionId.toNat.repr.toList := by
  simp [directoryName]

lemma isDigit_of_mem_repr {n : ℕ} {c : Char} (h : c ∈ n.repr.toList) : c.isDigit := by
  rw [Nat.toList_repr] at h
  exact Nat.isDigit_of_mem_toDigits (by decide) (by decide) h

/-- Two ways to split a list at an element that does not come again are the same. -/
lemma append_cons_inj {α : Type*} [DecidableEq α] {a : α} {xs xs' ys ys' : List α} (hys : a ∉ ys)
    (hys' : a ∉ ys') (h : xs ++ a :: ys = xs' ++ a :: ys') : xs = xs' ∧ ys = ys' := by
  have hsplit := congrArg (fun l => l.reverse.splitOn a) h
  simp only [List.reverse_append, List.reverse_cons, List.append_assoc, List.singleton_append,
    List.splitOn_append_cons_self_of_not_mem (mt List.mem_reverse.mp hys),
    List.splitOn_append_cons_self_of_not_mem (mt List.mem_reverse.mp hys')] at hsplit
  obtain rfl := List.reverse_inj.mp (List.cons.inj hsplit).1
  exact ⟨List.append_cancel_right h, rfl⟩

lemma directoryName_injective : Function.Injective directoryName := by
  intro p q h
  have hdash : ∀ n : ℕ, '-' ∉ n.repr.toList := fun n hmem => absurd (isDigit_of_mem_repr hmem) (by decide)
  rw [← String.toList_inj, directoryName_toList, directoryName_toList] at h
  obtain ⟨htopic, hid⟩ := append_cons_inj (hdash _) (hdash _) h
  rw [String.toList_inj] at htopic hid
  rw [TopicPartition.ext_iff, ← UInt16.toNat_inj]
  exact ⟨htopic, Nat.repr_injective hid⟩

lemma Plain.directoryName (h : p.Plain) : '/' ∉ p.directoryName.toList := by
  rw [directoryName_toList, List.mem_append, List.mem_cons, not_or, not_or]
  exact ⟨h, by decide, fun hmem => absurd (isDigit_of_mem_repr hmem) (by decide)⟩

/-- A name with a dash is neither empty nor one of the two special components. -/
lemma enter_directoryName (d : Directory) (p : TopicPartition) :
    enter d p.directoryName = d ++ [p.directoryName] := by
  have hdash : '-' ∈ p.directoryName.toList := by
    rw [directoryName_toList]
    exact List.mem_append_right _ List.mem_cons_self
  have hne : ∀ name : String, '-' ∉ name.toList → p.directoryName ≠ name := by
    rintro _ hname rfl
    exact hname hdash
  rw [enter, if_neg, if_neg (hne ".." (by decide))]
  rintro (h | h)
  · exact hne "" (by decide) h
  · exact hne "." (by decide) h

/-- The directory of a partition with a plain topic is below the base. -/
lemma Plain.directory_eq (h : p.Plain) (baseDir : String) :
    p.directory baseDir = resolve baseDir ++ [p.directoryName] := by
  rw [directory, resolve_joinPath _ h.directoryName, enter_directoryName]

/-- Partitions with plain topics share a directory only if they are the same. -/
lemma Plain.directory_inj {baseDir : String} (hp : p.Plain) (hq : q.Plain) :
    p.directory baseDir = q.directory baseDir ↔ p = q := by
  rw [hp.directory_eq, hq.directory_eq, List.append_cancel_left_eq, List.singleton_inj]
  exact directoryName_injective.eq_iff

end TopicPartition

end Musil.Broker
