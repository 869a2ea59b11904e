import Mathlib.Data.List.AList

/-!
# Lists under two keys

A `Groups α β γ` keeps lists of elements under a first and a second key. No list is empty, so the
lists that there are tell which pairs of keys have been given an element. Where one key is enough, an
association list of lists does.
-/

variable {α β γ : Type*} [DecidableEq α] [DecidableEq β]

/-! ### Association lists -/

/-- The entry under a key, from the list of all entries. -/
lemma AList.filter_entries {δ : α → Type*} (s : AList δ) (a : α) :
    s.entries.filter (fun e => e.1 = a) = ((s.lookup a).map (Sigma.mk a)).toList := by
  obtain ⟨l, hl⟩ := s
  change l.filter (fun e => e.1 = a) = ((l.dlookup a).map (Sigma.mk a)).toList
  induction l with
  | nil => rfl
  | cons e l ih =>
    obtain ⟨a', b⟩ := e
    rw [List.nodupKeys_cons] at hl
    by_cases h : a' = a
    · subst h
      have hnone : l.dlookup a' = none := List.dlookup_eq_none.mpr hl.1
      rw [List.filter_cons_of_pos (by simp), ih hl.2, hnone, List.dlookup_cons_eq]
      rfl
    · rw [List.filter_cons_of_neg (by simpa using h), ih hl.2, List.dlookup_cons_ne _ _ (Ne.symm h)]

omit [DecidableEq α] in
lemma List.eq_of_perm_toList {o : Option α} {as : List α} (h : as.Perm o.toList) :
    as = o.toList := by
  cases o with
  | none => exact List.perm_nil.mp h
  | some a => exact List.perm_singleton.mp h

/-- The same, whatever the order in which the entries are gone through and what is made of them. -/
lemma AList.filter_of_perm {δ : α → Type*} {s : AList δ} {f : Sigma δ → γ} (key : γ → α)
    (hkey : ∀ e, key (f e) = e.1) {cs : List γ} (h : cs.Perm (s.entries.map f)) (a : α) :
    cs.filter (fun c => key c = a) = ((s.lookup a).map fun d => f ⟨a, d⟩).toList := by
  have hfilter : (s.entries.map f).filter (fun c => key c = a)
      = ((s.lookup a).map fun d => f ⟨a, d⟩).toList := by
    have hcomp : ((fun c => decide (key c = a)) ∘ f) = fun e : Sigma δ => decide (e.1 = a) := by
      funext e
      rw [Function.comp_apply, hkey]
    rw [List.filter_map, hcomp, s.filter_entries]
    cases s.lookup a <;> rfl
  have hperm := h.filter fun c => decide (key c = a)
  rw [hfilter] at hperm
  exact List.eq_of_perm_toList hperm

/-- Append an element to the list under a key. -/
def AList.pushAt (s : AList fun _ : α => List γ) (a : α) (c : γ) : AList fun _ : α => List γ :=
  s.insert a ((s.lookup a).getD [] ++ [c])

/-- Elements that are appended one after the other stand under their keys in their order. -/
lemma AList.lookup_foldl_pushAt {δ : Type*} (key : δ → α) (val : δ → γ) (ds : List δ)
    (s : AList fun _ : α => List γ) (a : α) :
    (ds.foldl (fun s d => s.pushAt (key d) (val d)) s).lookup a =
      if ∃ d ∈ ds, key d = a then
        some ((s.lookup a).getD [] ++ (ds.filter fun d => key d = a).map val)
      else s.lookup a := by
  induction ds generalizing s with
  | nil => simp
  | cons d ds ih =>
    rw [List.foldl_cons, ih, AList.pushAt]
    by_cases hd : key d = a
    · subst hd
      have hex : ∃ d' ∈ d :: ds, key d' = key d := ⟨d, List.mem_cons_self, rfl⟩
      rw [if_pos hex, AList.lookup_insert, Option.getD_some, List.filter_cons_of_pos (by simp),
        List.map_cons, List.append_assoc, List.singleton_append]
      split_ifs with hmem
      · rfl
      · have hnil : ds.filter (fun d' => key d' = key d) = [] := by
          rw [List.filter_eq_nil_iff]
          exact fun d' hd' heq => hmem ⟨d', hd', of_decide_eq_true heq⟩
        rw [hnil, List.map_nil]
    · rw [AList.lookup_insert_ne (Ne.symm hd), List.filter_cons_of_neg (by simpa using hd)]
      simp only [List.exists_mem_cons_iff, hd, false_or]

/-- Nonempty lists under a first and a second key. -/
structure Groups (α β γ : Type*) [DecidableEq α] [DecidableEq β] where
  entries : AList fun _ : α => AList fun _ : β => List γ
  filled : ∀ a inner, entries.lookup a = some inner → ∀ b, inner.lookup b ≠ some []

namespace Groups

/-- The list under a pair of keys, if there is one. -/
def find (g : Groups α β γ) (a : α) (b : β) : Option (List γ) :=
  (g.entries.lookup a).bind fun inner => inner.lookup b

/-- The list under a pair of keys, where a missing one is empty. -/
def get (g : Groups α β γ) (a : α) (b : β) : List γ :=
  (g.find a b).getD []

def empty : Groups α β γ where
  entries := ∅
  filled a inner h := by
    rw [AList.lookup_empty] at h
    cases h

def isEmpty (g : Groups α β γ) : Bool :=
  g.entries.entries.isEmpty

/-- Append an element to the list under a pair of keys. -/
def push (g : Groups α β γ) (a : α) (b : β) (c : γ) : Groups α β γ where
  entries := g.entries.insert a
    (((g.entries.lookup a).getD ∅).insert b (g.get a b ++ [c]))
  filled a' inner h b' hb := by
    by_cases ha : a' = a
    · subst ha
      rw [AList.lookup_insert, Option.some.injEq] at h
      subst h
      by_cases hb' : b' = b
      · subst hb'
        rw [AList.lookup_insert, Option.some.injEq] at hb
        exact List.append_ne_nil_of_right_ne_nil _ (List.cons_ne_nil _ _) hb
      · rw [AList.lookup_insert_ne hb'] at hb
        cases hold : g.entries.lookup a' with
        | none =>
          rw [hold, Option.getD_none, AList.lookup_empty] at hb
          cases hb
        | some old =>
          rw [hold, Option.getD_some] at hb
          exact g.filled a' old hold b' hb
    · rw [AList.lookup_insert_ne ha] at h
      exact g.filled a' inner h b' hb

@[simp] lemma get_empty (a : α) (b : β) : (empty : Groups α β γ).get a b = [] := rfl

@[simp] lemma isEmpty_empty : (empty : Groups α β γ).isEmpty = true := rfl

lemma get_of_isEmpty {g : Groups α β γ} (h : g.isEmpty = true) (a : α) (b : β) : g.get a b = [] := by
  have hentries : g.entries = ∅ := AList.ext (List.isEmpty_iff.mp h)
  rw [get, find, hentries]
  rfl

@[simp] lemma isEmpty_push (g : Groups α β γ) (a : α) (b : β) (c : γ) :
    (g.push a b c).isEmpty = false := by
  rw [isEmpty, push, AList.entries_insert]
  rfl

lemma find_push (g : Groups α β γ) (a : α) (b : β) (c : γ) :
    (g.push a b c).find a b = some (g.get a b ++ [c]) := by
  rw [find, push, AList.lookup_insert, Option.bind_some, AList.lookup_insert]

@[simp] lemma get_push (g : Groups α β γ) (a : α) (b : β) (c : γ) :
    (g.push a b c).get a b = g.get a b ++ [c] := by
  rw [get, find_push, Option.getD_some]

lemma get_push_ne {g : Groups α β γ} {a a' : α} {b b' : β} (c : γ) (h : ¬ (a = a' ∧ b = b')) :
    (g.push a b c).get a' b' = g.get a' b' := by
  rw [get, get, find, find, push]
  by_cases ha : a' = a
  · subst ha
    have hb : b' ≠ b := fun hb => h ⟨rfl, hb.symm⟩
    rw [AList.lookup_insert, Option.bind_some, AList.lookup_insert_ne hb]
    cases g.entries.lookup a' <;> rfl
  · rw [AList.lookup_insert_ne ha]

/-- There is a list under a pair of keys, unless the list there is empty. -/
lemma find_eq (g : Groups α β γ) (a : α) (b : β) :
    g.find a b = if g.get a b = [] then none else some (g.get a b) := by
  rw [get]
  cases hfind : g.find a b with
  | none => rfl
  | some cs =>
    have hcs : cs ≠ [] := by
      rintro rfl
      obtain ⟨inner, ha, hb⟩ := Option.bind_eq_some_iff.mp hfind
      exact g.filled a inner ha b hb
    rw [Option.getD_some, if_neg hcs]

end Groups
