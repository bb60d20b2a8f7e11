import Mathlib.Data.Prod.Basic
import TileMachine.InputList
import TileMachine.Proofs.Maps
import TileMachine.Proofs.Outcome
import TileMachine.Proofs.Text.Decimal
import TileMachine.Proofs.Text.Letters
import TileMachine.Proofs.Text.Trimming

/-! Values that are read from a text are valid: integers in range and capital letters. A
valid value that is written is read back, also from a list of items between commas. -/
namespace TileMachine

theorem Text.splitOn_commas {texts : List String} (hne : texts ≠ [])
    (h : ∀ text ∈ texts, ',' ∉ text.toList) :
    (",".intercalate texts).toList.splitOn ',' = texts.map String.toList := by
  rw [String.toList_intercalate]
  apply List.splitOn_intercalate
  · intro cs hcs
    obtain ⟨text, htext, rfl⟩ := List.mem_map.1 hcs
    exact h text htext
  · simpa using hne

namespace Value

theorem valid_of_integer {cs : List Char} {v : Value} (h : ofChars.integer cs = .ok v) :
    v.Valid := by
  unfold ofChars.integer at h
  split at h
  next n _ =>
    split at h
    next hrange =>
      cases h
      exact hrange
    next => contradiction
  next => contradiction

theorem valid_of_ofChars {cs : List Char} {v : Value} (h : ofChars cs = .ok v) : v.Valid := by
  unfold ofChars at h
  split at h
  next c _ =>
    split at h
    next halpha =>
      cases h
      exact Text.isUpper_toUpper halpha
    next => exact valid_of_integer h
  next => exact valid_of_integer h

theorem valid_of_parseList {text : String} {values : List Value}
    (h : parseList text = .ok values) : ∀ v ∈ values, v.Valid := by
  intro v hv
  unfold parseList at h
  split at h
  next =>
    cases h
    contradiction
  next =>
    obtain ⟨cs, -, hcs⟩ := exists_mem_of_mem_left (mapM_eq_ok.1 h).flip hv
    exact valid_of_ofChars hcs

/-! ### Values that are written -/

theorem mem_text {v : Value} {c : Char} (h : v.Valid) (hc : c ∈ v.text.toList) :
    Text.isBlank c = false ∧ c ≠ ',' := by
  cases v with
  | int n =>
    rcases Decimal.mem_ofInt hc with hdigit | rfl
    · refine ⟨Text.isBlank_of_isDigit hdigit, ?_⟩
      rintro rfl
      contradiction
    · decide
  | letter d =>
    obtain rfl : c = d := by simpa [text] using hc
    have halpha := Text.isAlpha_of_isUpper h
    refine ⟨Text.isBlank_of_isAlpha halpha, ?_⟩
    rintro rfl
    contradiction

theorem trim_text {v : Value} (h : v.Valid) : Text.trim v.text.toList = v.text.toList :=
  Text.trim_of_no_blank fun _ hc => (mem_text h hc).1

theorem text_ne_nil (v : Value) : v.text.toList ≠ [] := by
  cases v with
  | int n =>
    intro hnil
    have hread := Decimal.integer?_ofInt n
    unfold text at hnil
    rw [hnil] at hread
    contradiction
  | letter c => simp [text]

theorem isAlpha_of_mem_ofInt {n : Int} {c : Char} (h : c ∈ (Decimal.ofInt n).toList) :
    ¬c.isAlpha = true := by
  intro halpha
  have hletter := Text.toNat_of_isAlpha halpha
  rcases Decimal.mem_ofInt h with hdigit | rfl
  · have hrange := Text.toNat_of_isDigit hdigit
    omega
  · contradiction

theorem ofChars_text {v : Value} (h : v.Valid) : ofChars v.text.toList = .ok v := by
  unfold ofChars
  rw [trim_text h]
  cases v with
  | letter c =>
    simp only [text, String.toList_singleton]
    rw [if_pos (Text.isAlpha_of_isUpper h), (Text.toUpper_of_isUpper h).1]
  | int n =>
    have hinteger : ofChars.integer (text (int n)).toList = .ok (int n) := by
      unfold ofChars.integer text
      rw [Decimal.integer?_ofInt]
      exact if_pos h
    split
    next c hc =>
      have hmem : c ∈ (Decimal.ofInt n).toList := hc ▸ List.mem_singleton_self c
      rw [if_neg (isAlpha_of_mem_ofInt hmem), ← hc, hinteger]
    next => exact hinteger

theorem parseList_commas {values : List Value} (h : ∀ v ∈ values, v.Valid) :
    parseList (",".intercalate (values.map text)) = .ok values := by
  cases values with
  | nil => rfl
  | cons v rest =>
    have hcomma : ∀ item ∈ (v :: rest).map text, ',' ∉ item.toList := by
      intro item hitem
      obtain ⟨w, hw, rfl⟩ := List.mem_map.1 hitem
      exact fun hmem => (mem_text (h w hw) hmem).2 rfl
    have hblank : Text.trim (",".intercalate ((v :: rest).map text)).toList ≠ [] := by
      obtain ⟨c, hc⟩ := List.exists_mem_of_ne_nil _ v.text_ne_nil
      have hmem : c ∈ (",".intercalate ((v :: rest).map text)).toList := by
        cases rest with
        | nil => simpa using hc
        | cons w rest => simp [hc]
      intro hnil
      have hno := (mem_text (h v List.mem_cons_self) hc).1
      rw [Text.trim_eq_nil_iff.1 hnil c hmem] at hno
      contradiction
    unfold parseList
    rw [if_neg (by simpa using hblank), Text.splitOn_commas (by simp) hcomma, mapM_eq_ok,
      List.map_map, List.forall₂_map_left_iff, List.forall₂_same]
    exact fun w hw => ofChars_text (h w hw)

end Value

namespace Tiles

theorem nodup_addresses (items : List (Option Value)) :
    ((items.zipIdx.map Prod.swap).map Prod.fst).Nodup := by
  rw [List.map_map]
  change (items.zipIdx.map Prod.snd).Nodup
  rw [List.zipIdx_map_snd]
  exact List.nodup_range'

/-- An item stands on the tile with its index, also if it is empty, and there are no other
tiles. -/
theorem getElem?_ofItems (items : List (Option Value)) (n : Nat) :
    (ofItems items)[n]? = items[n]? := by
  ext item
  unfold ofItems
  rw [getElem?_ofList_iff (nodup_addresses items), ← List.mk_mem_zipIdx_iff_getElem?]
  exact List.mem_map_of_injective Prod.swap_injective (a := (item, n))

theorem read_ofItems (items : List (Option Value)) (n : Nat) :
    (ofItems items).read n = items[n]?.join := by
  rw [read, getElem?_ofItems]

theorem valid_of_parse {text : String} {tiles : Tiles} (h : parse text = .ok tiles) :
    tiles.Valid := by
  intro n v hv
  obtain ⟨items, hitems, rfl⟩ := map_eq_ok.1 h
  rw [read_ofItems, Option.join_eq_some_iff] at hv
  have hmem := List.mem_of_getElem? hv
  obtain ⟨cs, -, hcs⟩ := exists_mem_of_mem_left (mapM_eq_ok.1 hitems).flip hmem
  unfold parseItem at hcs
  split at hcs
  next => cases hcs
  next =>
    obtain ⟨w, hw, hwv⟩ := map_eq_ok.1 hcs
    cases hwv
    exact Value.valid_of_ofChars hw

end Tiles
end TileMachine
