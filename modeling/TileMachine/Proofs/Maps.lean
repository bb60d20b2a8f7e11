import Mathlib.Data.List.Induction
import Mathlib.Data.List.Nodup
import Std.Data.ExtTreeMap

/-! Maps that are made from a list of entries with different keys: they hold those
entries and no others, whatever the order of the list. -/
namespace TileMachine
open Std

variable {α β : Type} [Ord α] [TransOrd α] [LawfulEqOrd α] [DecidableEq α] {l l' : List (α × β)}

theorem getElem?_ofList_iff (h : (l.map Prod.fst).Nodup) {key : α} {value : β} :
    (ExtTreeMap.ofList l compare)[key]? = some value ↔ (key, value) ∈ l := by
  have hdistinct : l.Pairwise fun a b => ¬compare a.1 b.1 = .eq := by
    simp only [LawfulEqOrd.compare_eq_iff_eq]
    exact List.pairwise_map.1 h
  have hlookup {v : β} (hmem : (key, v) ∈ l) :
      (ExtTreeMap.ofList l compare)[key]? = some v :=
    ExtTreeMap.getElem?_ofList_of_mem ReflCmp.compare_self hdistinct hmem
  refine ⟨fun hvalue => ?_, hlookup⟩
  by_cases hkey : key ∈ l.map Prod.fst
  · obtain ⟨⟨_, other⟩, hother, rfl⟩ := List.mem_map.1 hkey
    rw [hlookup hother, Option.some.injEq] at hvalue
    exact hvalue ▸ hother
  · rw [ExtTreeMap.getElem?_ofList_of_contains_eq_false] at hvalue
    · contradiction
    · simpa [List.contains_iff_mem] using hkey

theorem toList_ofList_perm (h : (l.map Prod.fst).Nodup) :
    (ExtTreeMap.ofList l compare).toList.Perm l := by
  have hnodup : (ExtTreeMap.ofList l compare).toList.Nodup := by
    apply ExtTreeMap.distinct_keys_toList.imp
    rintro a _ hne rfl
    exact hne ReflCmp.compare_self
  apply (List.perm_ext_iff_of_nodup hnodup (List.Nodup.of_map Prod.fst h)).2
  intro ⟨key, value⟩
  rw [ExtTreeMap.mem_toList_iff_getElem?_eq_some, getElem?_ofList_iff h]

theorem ofList_eq_of_perm (h : (l.map Prod.fst).Nodup) (hperm : l.Perm l') :
    ExtTreeMap.ofList l compare = ExtTreeMap.ofList l' compare := by
  have h' : (l'.map Prod.fst).Nodup := (hperm.map Prod.fst).nodup_iff.1 h
  ext key value
  rw [getElem?_ofList_iff h, getElem?_ofList_iff h', hperm.mem_iff]

theorem ofList_toList (m : ExtTreeMap α β) : ExtTreeMap.ofList m.toList compare = m := by
  have hnodup : (m.toList.map Prod.fst).Nodup := by
    rw [ExtTreeMap.map_fst_toList_eq_keys]
    exact ExtTreeMap.nodup_keys
  ext key value
  rw [getElem?_ofList_iff hnodup, ExtTreeMap.mem_toList_iff_getElem?_eq_some]

theorem mem_ofList_iff {key : α} :
    key ∈ ExtTreeMap.ofList l compare ↔ key ∈ l.map Prod.fst := by
  rw [ExtTreeMap.mem_ofList, List.contains_iff_mem]

omit [DecidableEq α] in
theorem mem_of_getElem?_ofList {key : α} {value : β}
    (h : (ExtTreeMap.ofList l compare)[key]? = some value) : (key, value) ∈ l := by
  rw [ExtTreeMap.ofList_eq_foldl] at h
  induction l using List.reverseRecOn with
  | nil => simp at h
  | append_singleton l entry ih =>
    rw [List.foldl_append, List.foldl_cons, List.foldl_nil, ExtTreeMap.getElem?_insert] at h
    split at h
    next heq =>
      obtain rfl := LawfulEqOrd.compare_eq_iff_eq.1 heq
      cases h
      exact List.mem_append_right l List.mem_cons_self
    next => exact List.mem_append_left _ (ih h)

end TileMachine
