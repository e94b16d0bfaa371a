import Mathlib.Data.String.Basic
import StaticSite.FrontMatter

/-!
# Metadata in order

The entries of metadata that is read stand in the order of their keys, and no key occurs twice.
-/

namespace StaticSite

namespace Metadata

/-- The keys are in order, and each of them occurs once. -/
def Ordered (m : Metadata) : Prop := m.Pairwise fun e e' => e.1 < e'.1

theorem eq_or_mem_of_mem_insert {key value : String} {m : Metadata} {e : String × String}
    (h : e ∈ insert key value m) : e.1 = key ∨ e ∈ m := by
  induction m with
  | nil => exact .inl (congrArg Prod.fst (List.mem_singleton.1 h))
  | cons e' m ih =>
    rw [insert] at h
    split at h
    · exact (List.mem_cons.1 h).imp (congrArg Prod.fst) fun h => h
    · split at h
      · exact (List.mem_cons.1 h).imp (congrArg Prod.fst) (List.mem_cons_of_mem _)
      · rcases List.mem_cons.1 h with rfl | h
        · exact .inr List.mem_cons_self
        · exact (ih h).imp_right (List.mem_cons_of_mem _)

theorem Ordered.insert {m : Metadata} (h : m.Ordered) (key value : String) :
    (insert key value m).Ordered := by
  induction m with
  | nil => exact List.pairwise_singleton _ _
  | cons e m ih =>
    obtain ⟨he, hm⟩ := List.pairwise_cons.1 h
    rw [Metadata.insert]
    split
    · rename_i hlt
      refine List.pairwise_cons.2 ⟨fun e' he' => ?_, h⟩
      rcases List.mem_cons.1 he' with rfl | he'
      · exact hlt
      · exact hlt.trans (he e' he')
    · rename_i hlt
      split
      · rename_i heq
        exact List.pairwise_cons.2 ⟨heq ▸ he, hm⟩
      · rename_i hne
        refine List.pairwise_cons.2 ⟨fun e' he' => ?_, ih hm⟩
        rcases eq_or_mem_of_mem_insert he' with hkey | he'
        · exact hkey ▸ lt_of_le_of_ne (not_lt.1 hlt) (Ne.symm hne)
        · exact he e' he'

theorem ordered_ofEntries (es : List (String × String)) : (ofEntries es).Ordered := by
  have hfold : ∀ m : Metadata, m.Ordered →
      Ordered (es.foldl (fun m e => Metadata.insert e.1 e.2 m) m) := by
    induction es with
    | nil => exact fun m hm => hm
    | cons e es ih => exact fun m hm => ih _ (hm.insert e.1 e.2)
  exact hfold [] .nil

/-- Front matter is read into metadata in order. -/
theorem ordered_of_parse {block : List Char} {m : Metadata}
    (h : FrontMatter.parse block = .ok m) : m.Ordered := by
  unfold FrontMatter.parse at h
  split at h
  · cases h
    exact .nil
  · split at h
    · cases h
    · cases h
      exact ordered_ofEntries _
    · cases h
      exact .nil
    · cases h

end Metadata

end StaticSite
