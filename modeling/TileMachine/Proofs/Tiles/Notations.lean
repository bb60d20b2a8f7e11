import Mathlib.Data.List.Perm.Basic
import TileMachine.Fixture
import TileMachine.Proofs.InputList

/-! Three notations for a floor: the items in a list, the items between commas, and an
object with the addresses as keys. Objects go through a map that orders its keys as texts,
where ten comes before two; each item still arrives on its own tile. -/
namespace TileMachine.Tiles
open Json

def itemText : Option Value → String
  | none => ""
  | some v => v.text

def commaText (items : List (Option Value)) : String :=
  ",".intercalate (items.map itemText)

/-- The items as members of an object, each under the decimal form of its index. -/
def indexed {α : Type} (items : List α) : List (String × α) :=
  items.zipIdx.map fun (item, n) => (Decimal.ofNat n, item)

/-! ### Items between commas -/

variable {items : List (Option Value)}

theorem parseItem_itemText {item : Option Value} (h : ∀ v, item = some v → v.Valid) :
    parseItem (itemText item).toList = .ok item := by
  cases item with
  | none => rfl
  | some v =>
    have hvalid := h v rfl
    unfold parseItem itemText
    rw [Value.trim_text hvalid, if_neg (by simpa using v.text_ne_nil), Value.ofChars_text hvalid]
    rfl

theorem comma_not_mem_itemText {item : Option Value} (h : ∀ v, item = some v → v.Valid) :
    ',' ∉ (itemText item).toList := by
  cases item with
  | none => exact List.not_mem_nil
  | some v => exact fun hcomma => (Value.mem_text (h v rfl) hcomma).2 rfl

theorem parse_commaText (hne : items ≠ []) (hvalid : ∀ v, some v ∈ items → v.Valid) :
    parse (commaText items) = .ok (ofItems items) := by
  have hitem : ∀ item ∈ items, ∀ v, item = some v → v.Valid := by
    rintro _ hmem v rfl
    exact hvalid v hmem
  have hcomma : ∀ text ∈ items.map itemText, ',' ∉ text.toList := by
    intro text htext
    obtain ⟨item, hmem, rfl⟩ := List.mem_map.1 htext
    exact comma_not_mem_itemText (hitem item hmem)
  unfold parse commaText
  rw [Text.splitOn_commas (by simpa using hne) hcomma, map_eq_ok]
  refine ⟨items, mapM_eq_ok.2 ?_, rfl⟩
  rw [List.map_map, List.forall₂_map_left_iff, List.forall₂_same]
  exact fun item hmem => parseItem_itemText (hitem item hmem)

/-! ### Addresses as keys -/

theorem addressOfKey_ofNat {n : Nat} (h : n < Decimal.addressCount) :
    addressOfKey (Decimal.ofNat n) = .ok n := by
  have htrim : Text.trim (Decimal.ofNat n).toList = (Decimal.ofNat n).toList :=
    Text.trim_of_no_blank fun _ hc => Text.isBlank_of_isDigit (Decimal.isDigit_of_mem_ofNat hc)
  unfold addressOfKey
  rw [htrim, Decimal.natural?_ofNat]
  exact if_pos h

def Addresses (m : String × Option Value) (entry : Nat × Option Value) : Prop :=
  addressOfKey m.1 = .ok entry.1 ∧ m.2 = entry.2

theorem foldlM_addresses {members : List (String × Option Value)}
    {entries : List (Nat × Option Value)} (h : List.Forall₂ Addresses members entries)
    (tiles : Tiles) :
    members.foldlM (fun tiles (key, item) => return tiles.insert (← addressOfKey key) item) tiles =
      (.ok (tiles.insertMany entries) : Except Mismatch Tiles) := by
  induction h generalizing tiles with
  | nil => rfl
  | @cons m entry members entries hfirst _ ih =>
    obtain ⟨key, item⟩ := m
    obtain ⟨address, _⟩ := entry
    obtain ⟨haddress, rfl⟩ := hfirst
    rw [List.foldlM_cons, Std.ExtTreeMap.insertMany_cons, ← ih]
    dsimp only at haddress ⊢
    rw [haddress]
    rfl

theorem ofMembers_of_addresses {members : List (String × Option Value)}
    {entries : List (Nat × Option Value)} (h : List.Forall₂ Addresses members entries)
    (hdistinct : (entries.map Prod.fst).Nodup) : ofMembers members = .ok (.ofList entries) := by
  have hkeys : (members.map Prod.fst).Nodup := by
    refine List.Nodup.of_map (addressOfKey) ?_
    have haddresses : (members.map Prod.fst).map addressOfKey = (entries.map Prod.fst).map .ok := by
      simp only [List.map_map, ← List.forall₂_eq_eq_eq, List.forall₂_map_left_iff,
        List.forall₂_map_right_iff]
      exact h.imp fun _ _ hm => hm.1
    rw [haddresses]
    exact hdistinct.map fun _ _ => Except.ok.inj
  obtain ⟨sorted, hsorted, hperm⟩ := List.perm_comp_forall₂ (toList_ofList_perm hkeys) h
  unfold ofMembers
  rw [foldlM_addresses hsorted, ← Std.ExtTreeMap.ofList_eq_insertMany_empty,
    ofList_eq_of_perm ((hperm.map Prod.fst).nodup_iff.2 hdistinct) hperm]

theorem addresses_indexed (hlength : items.length ≤ Decimal.addressCount) :
    List.Forall₂ Addresses (indexed items) (items.zipIdx.map Prod.swap) := by
  unfold indexed
  rw [List.forall₂_map_left_iff, List.forall₂_map_right_iff, List.forall₂_same]
  intro ⟨item, n⟩ hmem
  have hn : n < items.length := (List.mem_zipIdx' hmem).1
  exact ⟨addressOfKey_ofNat (Nat.lt_of_lt_of_le hn hlength), rfl⟩

theorem ofMembers_indexed {members : List (String × Option Value)}
    (hlength : items.length ≤ Decimal.addressCount) (hmembers : members.Perm (indexed items)) :
    ofMembers members = .ok (ofItems items) := by
  obtain ⟨entries, hentries, hperm⟩ :=
    List.perm_comp_forall₂ hmembers (addresses_indexed hlength)
  have hdistinct : (entries.map Prod.fst).Nodup :=
    (hperm.map Prod.fst).nodup_iff.2 (nodup_addresses items)
  rw [ofMembers_of_addresses hentries hdistinct, ofList_eq_of_perm hdistinct hperm]
  rfl

/-- The three notations describe the same floor. On it each item stands at its index, an
empty one too, and there is no other tile. -/
theorem notations_agree (items : List (Option Value)) (hne : items ≠ [])
    (hvalid : ∀ v, some v ∈ items → v.Valid) :
    parse (commaText items) = .ok (ofItems items) ∧
      (items.length ≤ Decimal.addressCount → ∀ members, members.Perm (indexed items) →
        ofMembers members = .ok (ofItems items)) ∧
      ∀ n : Nat, (ofItems items)[n]? = items[n]? :=
  ⟨parse_commaText hne hvalid, fun hlength _ => ofMembers_indexed hlength, getElem?_ofItems items⟩

theorem notations_agree_eleven :
    let items : List (Option Value) :=
      [some (.int (-9223372036854775808)), none, some (.letter 'Z'), some (.int 0), none, none,
        none, none, none, none, some (.int 9223372036854775807)]
    commaText items = "-9223372036854775808,,Z,0,,,,,,,9223372036854775807" ∧
      parse (commaText items) = .ok (ofItems items) ∧
      ofMembers (indexed items).reverse = .ok (ofItems items) ∧
      (ofItems items)[1]? = some none ∧ (ofItems items)[11]? = none := by
  intro items
  have hvalid : ∀ v, some v ∈ items → v.Valid := by
    intro v hv
    have hmem : v ∈ items.filterMap id := List.mem_filterMap.2 ⟨_, hv, rfl⟩
    have hall : ∀ w ∈ items.filterMap id, w.Valid := by decide
    exact hall v hmem
  have h := notations_agree items (by decide) hvalid
  refine ⟨by decide +kernel, h.1, h.2.1 (by decide) _ (List.reverse_perm _), ?_, ?_⟩
  · rw [h.2.2]
    rfl
  · rw [h.2.2]
    rfl

end TileMachine.Tiles
