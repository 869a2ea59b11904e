import Musil.Lib.Run
import Mathlib.Logic.Function.Basic

/-!
# Files and crashes

A directory gives names to files, and changes to both are cached. After a crash, a file that has not
been flushed holds anything, and the directory is one of those that there have been since it was
flushed last. So a file is replaced in one step, as far as anyone can tell, by writing a new one
beside it, flushing that one and giving it the name.
-/

structure CachedFile (β : Type*) where
  contents : β
  flushed : Bool

/-- The files by number, the directory, and those that may come back after a crash. -/
structure Volume (α β : Type*) where
  files : List (CachedFile β)
  dir : α → Option ℕ
  earlier : List (α → Option ℕ)

namespace Volume

variable {α β : Type*}

inductive Op (α β : Type*) where
  | write (name : α) (contents : β)
  | flush (name : α)
  | rename (source target : α)
  | flushDir

/-- The directories that there may be after a crash. -/
def dirs (v : Volume α β) : List (α → Option ℕ) :=
  v.dir :: v.earlier

/-- The contents of what the directory `d` gives a name. -/
def contents (v : Volume α β) (d : α → Option ℕ) (name : α) : Option β :=
  (d name).bind fun i => v.files[i]?.map CachedFile.contents

def read (v : Volume α β) (name : α) : Option β :=
  v.contents v.dir name

section Step

variable [DecidableEq α]

def step (v : Volume α β) : Op α β → Volume α β
  | .write name contents =>
    match v.dir name with
    | some i => { v with files := v.files.set i ⟨contents, false⟩ }
    | none =>
      { files := v.files ++ [⟨contents, false⟩]
        dir := Function.update v.dir name (some v.files.length)
        earlier := v.dirs }
  | .flush name =>
    match v.dir name with
    | some i => { v with files := v.files.modify i fun f => { f with flushed := true } }
    | none => v
  | .rename source target =>
    { v with
      dir := Function.update (Function.update v.dir target (v.dir source)) source none
      earlier := v.dirs }
  | .flushDir => { v with earlier := [] }

end Step

/-- A crash leaves the `n`-th of the directories, and puts `lost` into the files that were not
flushed. -/
def crash (v : Volume α β) (n : ℕ) (lost : ℕ → β) : Volume α β where
  files := v.files.mapIdx fun i f => if f.flushed then f else ⟨lost i, true⟩
  dir := v.dirs.getD n v.dir
  earlier := []

/-- Replace the file `name` with the help of the name `tmp`. -/
def replace (tmp name : α) (contents : β) : List (Op α β) :=
  [.write tmp contents, .flush tmp, .rename tmp name, .flushDir]

/-! ### Names that a crash cannot harm -/

/-- Whatever a crash leaves under `name` has been flushed, and writing to `tmp` does not change
it. -/
structure Safe (tmp name : α) (v : Volume α β) : Prop where
  named : ∀ d ∈ v.dirs, ∀ m i, d m = some i → i < v.files.length
  flushed : ∀ d ∈ v.dirs, ∀ i f, d name = some i → v.files[i]? = some f → f.flushed = true
  apart : ∀ d ∈ v.dirs, ∀ i, d name = some i → d tmp ≠ some i ∧ v.dir tmp ≠ some i

/-- Before and after a crash, `P` holds of what is read under `name`. -/
def Holds (name : α) (P : Option β → Prop) (v : Volume α β) : Prop :=
  ∀ d ∈ v.dirs, P (v.contents d name)

/-- Everything has been flushed, and no file has two names. -/
structure Mounted (v : Volume α β) : Prop where
  earlier_eq : v.earlier = []
  named : ∀ m i, v.dir m = some i → i < v.files.length
  flushed : ∀ f ∈ v.files, f.flushed = true
  distinct : ∀ m m' i, v.dir m = some i → v.dir m' = some i → m = m'

section Crash

variable {v : Volume α β} {tmp name : α} {P : Option β → Prop}

lemma Holds.read (h : v.Holds name P) : P (v.read name) :=
  h _ List.mem_cons_self

lemma Holds.imp {Q : Option β → Prop} (h : v.Holds name P) (himp : ∀ x, P x → Q x) :
    v.Holds name Q :=
  fun d hd => himp _ (h d hd)

lemma holds_of_earlier (h : v.earlier = []) : v.Holds name fun x => x = v.read name := by
  intro d hd
  rw [dirs, h, List.mem_singleton] at hd
  rw [hd]
  rfl

lemma contents_congr {w : Volume α β} {d d' : α → Option ℕ} (hd : d name = d' name)
    (hkeep : ∀ i, d' name = some i →
      w.files[i]?.map CachedFile.contents = v.files[i]?.map CachedFile.contents) :
    w.contents d name = v.contents d' name := by
  rw [contents, contents, hd]
  cases hi : d' name with
  | none => rfl
  | some i => exact hkeep i hi

lemma Mounted.safe (h : v.Mounted) (hne : tmp ≠ name) : v.Safe tmp name := by
  have hdirs : v.dirs = [v.dir] := by rw [dirs, h.earlier_eq]
  refine ⟨?_, ?_, ?_⟩
  · rw [hdirs, List.forall_mem_singleton]
    exact h.named
  · rw [hdirs, List.forall_mem_singleton]
    exact fun i f _ hf => h.flushed f (List.mem_of_getElem? hf)
  · rw [hdirs, List.forall_mem_singleton]
    intro i hi
    have hapart : v.dir tmp ≠ some i := fun htmp => hne (h.distinct tmp name i htmp hi)
    exact ⟨hapart, hapart⟩

lemma getD_mem_dirs (v : Volume α β) (n : ℕ) : v.dirs.getD n v.dir ∈ v.dirs := by
  rw [List.getD_eq_getElem?_getD]
  cases h : v.dirs[n]? with
  | none => exact List.mem_cons_self
  | some d => exact List.mem_of_getElem? h

lemma dirs_crash (n : ℕ) (lost : ℕ → β) :
    (v.crash n lost).dirs = [v.dirs.getD n v.dir] := rfl

lemma getElem?_files_crash (n : ℕ) (lost : ℕ → β) (i : ℕ) : (v.crash n lost).files[i]?
    = v.files[i]?.map fun f => if f.flushed then f else ⟨lost i, true⟩ :=
  List.getElem?_mapIdx

lemma Safe.crash (h : v.Safe tmp name) (n : ℕ) (lost : ℕ → β) :
    (v.crash n lost).Safe tmp name := by
  have hmem := v.getD_mem_dirs n
  refine ⟨?_, ?_, ?_⟩
  · have hlength : (v.crash n lost).files.length = v.files.length := List.length_mapIdx
    rw [dirs_crash, List.forall_mem_singleton, hlength]
    exact h.named _ hmem
  · rw [dirs_crash, List.forall_mem_singleton]
    intro i f hi hf
    rw [getElem?_files_crash] at hf
    obtain ⟨f', hf', rfl⟩ := Option.map_eq_some_iff.mp hf
    rw [if_pos (h.flushed _ hmem i f' hi hf')]
    exact h.flushed _ hmem i f' hi hf'
  · rw [dirs_crash, List.forall_mem_singleton]
    exact fun i hi => ⟨(h.apart _ hmem i hi).1, (h.apart _ hmem i hi).1⟩

/-- What is left under the name is what one of the directories gives it. -/
lemma Safe.holds_crash (h : v.Safe tmp name) (hP : v.Holds name P) (n : ℕ) (lost : ℕ → β) :
    (v.crash n lost).Holds name P := by
  have hmem := v.getD_mem_dirs n
  have hkeep : (v.crash n lost).contents (v.dirs.getD n v.dir) name
      = v.contents (v.dirs.getD n v.dir) name := by
    refine contents_congr rfl fun i hi => ?_
    rw [getElem?_files_crash]
    cases hf : v.files[i]? with
    | none => rfl
    | some f => rw [Option.map_some, if_pos (h.flushed _ hmem i f hi hf)]
  rw [Holds, dirs_crash, List.forall_mem_singleton, hkeep]
  exact hP _ hmem

end Crash

/-! ### Replacing a file -/

section Replace

variable [DecidableEq α] {v : Volume α β} {tmp name : α} {contents : β} {j : ℕ}
  {P : Option β → Prop}

omit [DecidableEq α] in
/-- The files under the name are as they were. -/
lemma Safe.files (h : v.Safe tmp name) (hP : v.Holds name P) (fs : List (CachedFile β))
    (hlength : fs.length = v.files.length)
    (hkeep : ∀ d ∈ v.dirs, ∀ i, d name = some i → fs[i]? = v.files[i]?) :
    ({ v with files := fs } : Volume α β).Safe tmp name ∧
      ({ v with files := fs } : Volume α β).Holds name P := by
  refine ⟨⟨fun d hd m i hi => ?_, fun d hd i f hi hf => ?_, h.apart⟩, fun d hd => ?_⟩
  · rw [hlength]
    exact h.named d hd m i hi
  · exact h.flushed d hd i f hi ((hkeep d hd i hi).symm.trans hf)
  · have hcontents : ({ v with files := fs } : Volume α β).contents d name = v.contents d name :=
      contents_congr rfl fun i hi => congrArg _ (hkeep d hd i hi)
    rw [hcontents]
    exact hP d hd

/-- What a directory names in which `tmp` stands for a new file, an earlier one names too, but for
that file. -/
lemma exists_mem_dirs_update (v : Volume α β) (hne : tmp ≠ name) (j : ℕ) :
    ∀ d ∈ Function.update v.dir tmp (some j) :: v.dirs, ∃ d' ∈ v.dirs, d name = d' name ∧
      ∀ m i, d m = some i → d' m = some i ∨ (m = tmp ∧ i = j) := by
  rw [List.forall_mem_cons]
  refine ⟨⟨v.dir, List.mem_cons_self, Function.update_of_ne hne.symm _ _, fun m i hi => ?_⟩,
    fun d hd => ⟨d, hd, rfl, fun m i hi => .inl hi⟩⟩
  by_cases hm : m = tmp
  · subst hm
    rw [Function.update_self] at hi
    exact .inr ⟨rfl, (Option.some.inj hi).symm⟩
  · rw [Function.update_of_ne hm] at hi
    exact .inl hi

/-- A file is added under the name `tmp`. -/
lemma Safe.create (h : v.Safe tmp name) (hP : v.Holds name P) (hne : tmp ≠ name)
    (f : CachedFile β) {w : Volume α β} (hw : w = ⟨v.files ++ [f],
      Function.update v.dir tmp (some v.files.length), v.dirs⟩) :
    w.Safe tmp name ∧ w.Holds name P := by
  subst hw
  have hdirs := v.exists_mem_dirs_update hne v.files.length
  have hkeep : ∀ d ∈ v.dirs, ∀ i, d name = some i → (v.files ++ [f])[i]? = v.files[i]? :=
    fun d hd i hi => List.getElem?_append_left (h.named d hd _ i hi)
  refine ⟨⟨fun d hd m i hi => ?_, fun d hd i f' hi hf => ?_, fun d hd i hi => ?_⟩, fun d hd => ?_⟩
  · obtain ⟨d', hd', -, hold⟩ := hdirs d hd
    rw [List.length_append, List.length_singleton]
    rcases hold m i hi with hi | ⟨-, rfl⟩
    · exact Nat.lt_succ_of_lt (h.named d' hd' m i hi)
    · exact Nat.lt_succ_self _
  · obtain ⟨d', hd', heq, -⟩ := hdirs d hd
    rw [heq] at hi
    exact h.flushed d' hd' i f' hi ((hkeep d' hd' i hi).symm.trans hf)
  · obtain ⟨d', hd', heq, hold⟩ := hdirs d hd
    rw [heq] at hi
    have hlt := h.named d' hd' _ i hi
    refine ⟨fun htmp => ?_, fun htmp => ?_⟩
    · rcases hold tmp i htmp with htmp | ⟨-, rfl⟩
      · exact (h.apart d' hd' i hi).1 htmp
      · exact absurd hlt (Nat.lt_irrefl _)
    · dsimp only at htmp
      rw [Function.update_self] at htmp
      exact Nat.ne_of_lt hlt (Option.some.inj htmp).symm
  · obtain ⟨d', hd', heq, -⟩ := hdirs d hd
    have hcontents : Volume.contents ⟨v.files ++ [f],
        Function.update v.dir tmp (some v.files.length), v.dirs⟩ d name = v.contents d' name :=
      contents_congr heq fun i hi => congrArg _ (hkeep d' hd' i hi)
    rw [hcontents]
    exact hP d' hd'

/-- A new file is written beside the one under the name. -/
lemma Safe.write (h : v.Safe tmp name) (hP : v.Holds name P) (hne : tmp ≠ name) (contents : β) :
    (v.step (.write tmp contents)).Safe tmp name ∧ (v.step (.write tmp contents)).Holds name P ∧
      ∃ j, (v.step (.write tmp contents)).dir tmp = some j ∧
        (v.step (.write tmp contents)).files[j]? = some ⟨contents, false⟩ := by
  cases hj : v.dir tmp with
  | some j =>
    have hstep : v.step (.write tmp contents)
        = { v with files := v.files.set j ⟨contents, false⟩ } := by
      rw [step, hj]
    obtain ⟨hsafe, hholds⟩ := h.files hP (v.files.set j ⟨contents, false⟩) List.length_set
      fun d hd i hi => List.getElem?_set_ne fun heq : j = i => (h.apart d hd i hi).2 (heq ▸ hj)
    rw [hstep]
    exact ⟨hsafe, hholds, j, hj, List.getElem?_set_self (h.named _ List.mem_cons_self _ _ hj)⟩
  | none =>
    have hstep : v.step (.write tmp contents) = ⟨v.files ++ [⟨contents, false⟩],
        Function.update v.dir tmp (some v.files.length), v.dirs⟩ := by
      rw [step, hj]
    obtain ⟨hsafe, hholds⟩ := h.create hP hne ⟨contents, false⟩ hstep
    refine ⟨hsafe, hholds, v.files.length, ?_, ?_⟩
    · rw [hstep]
      exact Function.update_self _ _ _
    · rw [hstep, List.getElem?_append_right (Nat.le_refl _), Nat.sub_self]
      rfl

lemma Safe.flush (h : v.Safe tmp name) (hP : v.Holds name P) (hj : v.dir tmp = some j)
    (hf : v.files[j]? = some ⟨contents, false⟩) :
    (v.step (.flush tmp)).Safe tmp name ∧ (v.step (.flush tmp)).Holds name P ∧
      (v.step (.flush tmp)).dir tmp = some j ∧
        (v.step (.flush tmp)).files[j]? = some ⟨contents, true⟩ := by
  have hstep : v.step (.flush tmp)
      = { v with files := v.files.modify j fun f => { f with flushed := true } } := by
    rw [step, hj]
  obtain ⟨hsafe, hholds⟩ := h.files hP
    (v.files.modify j fun f => { f with flushed := true }) (List.length_modify _ _ _)
    fun d hd i hi =>
      List.getElem?_modify_ne _ _ fun heq : j = i => (h.apart d hd i hi).2 (heq ▸ hj)
  rw [hstep]
  refine ⟨hsafe, hholds, hj, ?_⟩
  rw [List.getElem?_modify_eq, hf]
  rfl

/-- The new file gets the name; until the directory is flushed, a crash may give it back. -/
lemma Safe.rename (h : v.Safe tmp name) (hP : v.Holds name P) (hne : tmp ≠ name)
    (hj : v.dir tmp = some j) (hf : v.files[j]? = some ⟨contents, true⟩)
    (hcontents : P (some contents)) :
    (v.step (.rename tmp name)).Safe tmp name ∧ (v.step (.rename tmp name)).Holds name P ∧
      (v.step (.rename tmp name)).read name = some contents := by
  have hname : (v.step (.rename tmp name)).dir name = some j := by
    show Function.update (Function.update v.dir name (v.dir tmp)) tmp none name = _
    rw [Function.update_of_ne hne.symm, Function.update_self, hj]
  have htmp : (v.step (.rename tmp name)).dir tmp = none := Function.update_self _ _ _
  have hapart : ∀ i, (v.step (.rename tmp name)).dir tmp ≠ some i := by
    intro i
    rw [htmp]
    exact (Option.some_ne_none i).symm
  have hdir : ∀ m i, (v.step (.rename tmp name)).dir m = some i → ∃ m', v.dir m' = some i := by
    intro m i hi
    by_cases hm : m = tmp
    · rw [hm, htmp] at hi
      cases hi
    · by_cases hm' : m = name
      · rw [hm', hname] at hi
        exact ⟨tmp, hj.trans hi⟩
      · change Function.update (Function.update v.dir name (v.dir tmp)) tmp none m = some i at hi
        rw [Function.update_of_ne hm, Function.update_of_ne hm'] at hi
        exact ⟨m, hi⟩
  have hread : (v.step (.rename tmp name)).read name = some contents := by
    rw [read, Volume.contents, hname, Option.bind_some]
    show v.files[j]?.map _ = _
    rw [hf]
    rfl
  have hdirs : (v.step (.rename tmp name)).dirs = (v.step (.rename tmp name)).dir :: v.dirs := rfl
  refine ⟨⟨?_, ?_, ?_⟩, ?_, hread⟩
  · rw [hdirs, List.forall_mem_cons]
    refine ⟨fun m i hi => ?_, h.named⟩
    obtain ⟨m', hm'⟩ := hdir m i hi
    exact h.named _ List.mem_cons_self m' i hm'
  · rw [hdirs, List.forall_mem_cons]
    refine ⟨fun i f hi hf' => ?_, h.flushed⟩
    rw [hname] at hi
    cases hi
    cases hf.symm.trans hf'
    rfl
  · rw [hdirs, List.forall_mem_cons]
    exact ⟨fun i _ => ⟨hapart i, hapart i⟩, fun d hd i hi => ⟨(h.apart d hd i hi).1, hapart i⟩⟩
  · rw [Holds, hdirs, List.forall_mem_cons]
    refine ⟨?_, hP⟩
    rw [← read, hread]
    exact hcontents

omit [DecidableEq α] in
lemma Safe.of_dirs {w : Volume α β} (h : v.Safe tmp name) (hfiles : w.files = v.files)
    (hdir : w.dir = v.dir) (hsub : ∀ d ∈ w.dirs, d ∈ v.dirs) : w.Safe tmp name := by
  refine ⟨fun d hd => ?_, fun d hd => ?_, fun d hd => ?_⟩
  · rw [hfiles]
    exact h.named d (hsub d hd)
  · rw [hfiles]
    exact h.flushed d (hsub d hd)
  · rw [hdir]
    exact h.apart d (hsub d hd)

lemma dirs_flushDir (v : Volume α β) : ∀ d ∈ (v.step .flushDir).dirs, d ∈ v.dirs :=
  fun _ hd => List.mem_cons.mpr (.inl (List.mem_singleton.mp hd))

/-- At every point of a replacement, the name stands for its old contents or the new ones. -/
lemma Safe.replace_take (h : v.Safe tmp name) (hP : v.Holds name P) (hne : tmp ≠ name)
    (hcontents : P (some contents)) (k : ℕ) :
    (Run.run step v ((replace tmp name contents).take k)).Safe tmp name ∧
      (Run.run step v ((replace tmp name contents).take k)).Holds name P := by
  obtain ⟨h₁, hP₁, j, hj, hf⟩ := h.write hP hne contents
  obtain ⟨h₂, hP₂, hj, hf⟩ := h₁.flush hP₁ hj hf
  obtain ⟨h₃, hP₃, -⟩ := h₂.rename hP₂ hne hj hf hcontents
  match k with
  | 0 => exact ⟨h, hP⟩
  | 1 => exact ⟨h₁, hP₁⟩
  | 2 => exact ⟨h₂, hP₂⟩
  | 3 => exact ⟨h₃, hP₃⟩
  | k + 4 =>
    have hall : (replace tmp name contents).length ≤ k + 4 := Nat.le_add_left 4 k
    rw [List.take_of_length_le hall]
    exact ⟨h₃.of_dirs rfl rfl (dirs_flushDir _), fun d hd => hP₃ d (dirs_flushDir _ d hd)⟩

/-- The new contents are there once the name has been given, and for good once the directory has
been flushed. -/
lemma Safe.replace_done (h : v.Safe tmp name) (hne : tmp ≠ name) (contents : β) :
    (Run.run step v ((replace tmp name contents).take 3)).read name = some contents ∧
      (Run.run step v (replace tmp name contents)).Holds name fun x => x = some contents := by
  have hany : v.Holds name fun _ => True := fun _ _ => trivial
  obtain ⟨h₁, hP₁, j, hj, hf⟩ := h.write hany hne contents
  obtain ⟨h₂, hP₂, hj, hf⟩ := h₁.flush hP₁ hj hf
  obtain ⟨-, -, hread⟩ := h₂.rename hP₂ hne hj hf trivial
  refine ⟨hread, fun d hd => ?_⟩
  rw [List.mem_singleton.mp hd]
  exact hread

end Replace

end Volume
