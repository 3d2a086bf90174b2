import Mathlib.Data.List.Basic
import Mathlib.Data.List.Perm.Basic

/-!
# Groups

A table of lists, filled in the order of some items: the values of an item are added to the list
of its key, and a new key gets a list of its own.

* `collect_map` — the table of what the items stand for is the one of the items, group by group.
* `collect_grouped` — the groups together are the items, in some order; no two groups have a key in
  common, no group is empty, and its items have its key.
-/

namespace SystemFirmware.Lib

variable {ε κ α : Type*} [DecidableEq κ]

def extendGroup (k : κ) (vs : List α) : List (κ × List α) → List (κ × List α)
  | [] => [(k, vs)]
  | group :: groups =>
    if group.1 = k then (group.1, group.2 ++ vs) :: groups
    else group :: extendGroup k vs groups

def collect (key : ε → κ) (values : ε → List α) (items : List ε) : List (κ × List α) :=
  items.foldl (fun groups e => extendGroup (key e) (values e) groups) []

theorem extendGroup_map (f : ε → List α) (k : κ) (es : List ε) (groups : List (κ × List ε)) :
    extendGroup k (es.flatMap f) (groups.map fun g => (g.1, g.2.flatMap f)) =
      (extendGroup k es groups).map fun g => (g.1, g.2.flatMap f) := by
  induction groups with
  | nil => rfl
  | cons group groups ih =>
    rw [List.map_cons, extendGroup, extendGroup]
    by_cases hkey : group.1 = k
    · rw [if_pos hkey, if_pos hkey, List.map_cons, List.flatMap_append]
    · rw [if_neg hkey, if_neg hkey, List.map_cons, ih]

theorem collect_map (key : ε → κ) (values : ε → List α) (items : List ε) :
    collect key values items =
      (collect key (fun e => [e]) items).map fun g => (g.1, g.2.flatMap values) := by
  rw [collect, collect]
  -- for any groups that are there already
  suffices h : ∀ groups : List (κ × List ε),
      items.foldl (fun groups e => extendGroup (key e) (values e) groups)
        (groups.map fun g => (g.1, g.2.flatMap values)) =
      (items.foldl (fun groups e => extendGroup (key e) [e] groups) groups).map
        fun g => (g.1, g.2.flatMap values) from h []
  induction items with
  | nil =>
    intro groups
    rfl
  | cons e items ih =>
    intro groups
    have hstep := extendGroup_map values (key e) [e] groups
    rw [List.flatMap_singleton] at hstep
    rw [List.foldl_cons, List.foldl_cons, hstep, ih]

/-- The groups of the items. -/
structure Grouped (key : ε → κ) (items : List ε) (groups : List (κ × List ε)) : Prop where
  perm : (groups.flatMap Prod.snd).Perm items
  key_eq : ∀ group ∈ groups, ∀ e ∈ group.2, key e = group.1
  ne_nil : ∀ group ∈ groups, group.2 ≠ []
  nodup : (groups.map Prod.fst).Nodup

theorem perm_extendGroup (k : κ) (vs : List α) (groups : List (κ × List α)) :
    ((extendGroup k vs groups).flatMap Prod.snd).Perm (groups.flatMap Prod.snd ++ vs) := by
  induction groups with
  | nil =>
    rw [extendGroup, List.flatMap_singleton]
    exact List.Perm.refl _
  | cons group groups ih =>
    rw [extendGroup]
    split
    · rw [List.flatMap_cons, List.flatMap_cons, List.append_assoc, List.append_assoc]
      exact List.perm_append_comm.append_left _
    · rw [List.flatMap_cons, List.flatMap_cons, List.append_assoc]
      exact ih.append_left _

theorem mem_extendGroup {k : κ} {vs : List α} {groups : List (κ × List α)} {group : κ × List α}
    (h : group ∈ extendGroup k vs groups) :
    group ∈ groups ∨ group = (k, vs) ∨ ∃ old, (k, old) ∈ groups ∧ group = (k, old ++ vs) := by
  induction groups with
  | nil =>
    rw [extendGroup, List.mem_singleton] at h
    exact Or.inr (Or.inl h)
  | cons first groups ih =>
    rw [extendGroup] at h
    split at h
    next hkey =>
      rcases List.mem_cons.mp h with hfirst | hrest
      · refine Or.inr (Or.inr ⟨first.2, ?_, ?_⟩)
        · rw [← hkey]
          exact List.mem_cons_self
        · rw [hfirst, hkey]
      · exact Or.inl (List.mem_cons_of_mem _ hrest)
    next hkey =>
      rcases List.mem_cons.mp h with hfirst | hrest
      · rw [hfirst]
        exact Or.inl List.mem_cons_self
      · rcases ih hrest with hmem | hnew | ⟨old, hold, heq⟩
        · exact Or.inl (List.mem_cons_of_mem _ hmem)
        · exact Or.inr (Or.inl hnew)
        · exact Or.inr (Or.inr ⟨old, List.mem_cons_of_mem _ hold, heq⟩)

theorem nodup_extendGroup {k : κ} {vs : List α} {groups : List (κ × List α)}
    (h : (groups.map Prod.fst).Nodup) : ((extendGroup k vs groups).map Prod.fst).Nodup := by
  induction groups with
  | nil => simp [extendGroup]
  | cons first groups ih =>
    rw [List.map_cons, List.nodup_cons] at h
    rw [extendGroup]
    split
    next => exact List.nodup_cons.mpr h
    next hkey =>
      refine List.nodup_cons.mpr ⟨fun hmem => ?_, ih h.2⟩
      obtain ⟨group, hgroup, heq⟩ := List.mem_map.mp hmem
      rcases mem_extendGroup hgroup with hold | rfl | ⟨old, hold, rfl⟩
      · exact h.1 (List.mem_map.mpr ⟨group, hold, heq⟩)
      · exact hkey heq.symm
      · exact hkey heq.symm

variable {key : ε → κ} {items : List ε} {groups : List (κ × List ε)}

theorem Grouped.extend (h : Grouped key items groups) (e : ε) :
    Grouped key (items ++ [e]) (extendGroup (key e) [e] groups) where
  perm := (perm_extendGroup _ _ _).trans (h.perm.append_right _)
  key_eq := by
    intro group hgroup x hx
    rcases mem_extendGroup hgroup with hmem | rfl | ⟨old, hold, rfl⟩
    · exact h.key_eq group hmem x hx
    · rw [List.mem_singleton.mp hx]
    · rcases List.mem_append.mp hx with hx | hx
      · exact h.key_eq _ hold x hx
      · rw [List.mem_singleton.mp hx]
  ne_nil := by
    intro group hgroup
    rcases mem_extendGroup hgroup with hmem | rfl | ⟨old, hold, rfl⟩
    · exact h.ne_nil group hmem
    · exact List.cons_ne_nil _ _
    · exact List.append_ne_nil_of_right_ne_nil _ (List.cons_ne_nil _ _)
  nodup := nodup_extendGroup h.nodup

theorem collect_grouped (key : ε → κ) (items : List ε) :
    Grouped key items (collect key (fun e => [e]) items) := by
  -- for any items that are in the groups already
  suffices h : ∀ (before : List ε) (groups : List (κ × List ε)), Grouped key before groups →
      Grouped key (before ++ items)
        (items.foldl (fun groups e => extendGroup (key e) [e] groups) groups) by
    exact h [] [] ⟨List.Perm.refl _, by simp, by simp, .nil⟩
  induction items with
  | nil =>
    intro before groups h
    rw [List.append_nil]
    exact h
  | cons e items ih =>
    intro before groups h
    have hrest := ih (before ++ [e]) _ (h.extend e)
    rw [List.append_assoc, List.singleton_append] at hrest
    exact hrest

omit [DecidableEq κ] in
theorem Grouped.of_perm {groups' : List (κ × List ε)} (h : Grouped key items groups)
    (hperm : groups'.Perm groups) : Grouped key items groups' where
  perm := (hperm.flatMap_right _).trans h.perm
  key_eq := fun group hgroup => h.key_eq group (hperm.mem_iff.mp hgroup)
  ne_nil := fun group hgroup => h.ne_nil group (hperm.mem_iff.mp hgroup)
  nodup := (hperm.map Prod.fst).nodup_iff.mpr h.nodup

end SystemFirmware.Lib
