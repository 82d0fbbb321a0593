import Easel.Table

/-!
# Tables and their entries

A table is a list of entries, and looking a name up finds the first entry of
that name.  If no two entries have the same name, an entry is found by its
name and by its place in the same way.
-/

namespace Easel.Table

variable {α β : Type}
variable {table : Table α} {name : String} {entry : α}

theorem find?_eq_some_getElem? (found : table.find? name = some entry) :
    ∃ index : Nat, table.entries[index]? = some (name, entry) := by
  unfold find? at found
  obtain ⟨before, _, split, _⟩ := List.lookup_eq_some_iff.mp found
  refine ⟨before.length, ?_⟩
  rw [split]
  simp

theorem mem_of_find? (found : table.find? name = some entry) :
    (name, entry) ∈ table.entries := by
  obtain ⟨_, listed⟩ := find?_eq_some_getElem? found
  exact List.mem_of_getElem? listed

theorem find?_of_getElem? {index : Nat}
    (unique : table.names.Nodup)
    (found : table.entries[index]? = some (name, entry)) :
    table.find? name = some entry := by
  obtain ⟨_, element⟩ := List.getElem?_eq_some_iff.mp found
  refine List.lookup_eq_some_iff.mpr
    ⟨table.entries.take index, table.entries.drop (index + 1), ?_, ?_⟩
  · rw [← element, List.getElem_cons_drop, List.take_append_drop]
  · intro other member
    rw [bne_iff_ne]
    intro same
    obtain ⟨earlier, earlierBound, rfl⟩ := List.getElem_of_mem member
    rw [List.length_take] at earlierBound
    rw [List.getElem_take] at same
    have nameAt : table.names[index]? = some name := by
      simp [names, found]
    have nameEarlier : table.names[earlier]? = some name := by
      have inside : earlier < table.entries.length := by omega
      simp [names, inside, ← same]
    have sameIndex := (List.getElem?_inj (by simp [names]; omega) unique).mp
      (nameEarlier.trans nameAt.symm)
    omega

/-- Two tables with the same names are alike where their entries are. -/
theorem find?_map_eq {γ : Type} {first : Table α} {second : Table β}
    (left : α → γ)
    (right : β → γ)
    (same : first.entries.map (fun entry => (entry.1, left entry.2)) =
      second.entries.map fun entry => (entry.1, right entry.2))
    (name : String) :
    (first.find? name).map left = (second.find? name).map right := by
  unfold find?
  generalize first.entries = firsts at same
  generalize second.entries = seconds at same
  induction firsts generalizing seconds with
  | nil =>
    have empty : seconds = [] := by simpa using same.symm
    subst empty
    rfl
  | cons entry firsts induction =>
    cases seconds with
    | nil => simp at same
    | cons other seconds =>
      simp only [List.map_cons, List.cons.injEq, Prod.mk.injEq] at same
      obtain ⟨⟨sameName, sameEntry⟩, rest⟩ := same
      obtain ⟨key, _⟩ := entry
      obtain ⟨_, _⟩ := other
      dsimp only at sameName sameEntry
      subst sameName
      rw [List.lookup_cons, List.lookup_cons]
      cases name == key with
      | true => simp [sameEntry]
      | false => exact induction seconds rest

theorem find?_eq_none_iff : table.find? name = none ↔ name ∉ table.names := by
  rw [find?, List.lookup_eq_none_iff, names, List.mem_map]
  constructor
  · rintro missing ⟨entry, member, rfl⟩
    have different := missing entry member
    simp at different
  · intro missing entry member
    rw [bne_iff_ne]
    rintro rfl
    exact missing ⟨entry, member, rfl⟩

theorem nodup_empty : (empty : Table α).names.Nodup :=
  List.nodup_nil

/-- Adding an entry puts it at the end; its name is new. -/
theorem add?_ok {extended : Table α}
    (added : table.add? name entry = some extended) :
    extended.entries = table.entries ++ [(name, entry)] ∧
      name ∉ table.names := by
  unfold add? at added
  split at added
  · cases added
  · rename_i missing
    cases added
    refine ⟨rfl, find?_eq_none_iff.mp ?_⟩
    simpa [contains] using missing

theorem names_nodup_append {extended : Table α}
    (unique : table.names.Nodup)
    (added : table.add? name entry = some extended) :
    extended.names.Nodup := by
  obtain ⟨entries, new⟩ := add?_ok added
  unfold names at new unique ⊢
  rw [entries, List.map_append, List.nodup_append]
  refine ⟨unique, by simp, ?_⟩
  intro first member second last same
  rw [List.map_singleton, List.mem_singleton] at last
  subst last same
  exact new member

end Easel.Table
