import Mathlib.Data.String.Basic
import TileMachine.Fixture
import TileMachine.Proofs.Maps
import TileMachine.Proofs.Outcome
import TileMachine.Proofs.Text.Numerals

/-! A floor under keys. Several keys may mean one address, since blanks, a plus sign and
zeros in front do not count; the greatest of them decides, in the order of the texts. A key
that means no address spoils the floor, and the least of those is complained of. -/
namespace TileMachine.Tiles
open Std (ExtTreeMap LawfulEqOrd)
open Json

/-- The address that a key means. Blanks around the digits do not count. -/
def Means (key : String) (n : Nat) : Prop :=
  Decimal.Unsigned (Text.trim key.toList) n ∧ n < Decimal.addressCount

/-- The item is that of the greatest key among those that mean the address. -/
def Stands (floor : ExtTreeMap String (Option Value)) (n : Nat) (item : Option Value) : Prop :=
  ∃ key, floor[key]? = some item ∧ Means key n ∧ ∀ other ∈ floor, Means other n → other ≤ key

inductive Converts (floor : ExtTreeMap String (Option Value)) : Except Mismatch Tiles → Prop where
  | tiles {tiles : Tiles} : (∀ key ∈ floor, ∃ n, Means key n) →
      (∀ n : Nat, n ∈ tiles ↔ ∃ key ∈ floor, Means key n) →
      (∀ (n : Nat) item, tiles[n]? = some item ↔ Stands floor n item) →
      Converts floor (.ok tiles)
  | refused {key : String} : key ∈ floor → (∀ n, ¬Means key n) →
      (∀ other ∈ floor, (∀ n, ¬Means other n) → key ≤ other) →
      Converts floor (.error (.invalidAddress key))

variable {floor : ExtTreeMap String (Option Value)} {key : String}

/-! ### One key -/

theorem addressOfKey_eq_ok_iff {n : Nat} : addressOfKey key = .ok n ↔ Means key n := by
  unfold addressOfKey Means
  rw [← Decimal.natural?_eq_some_iff]
  cases Decimal.natural? (Text.trim key.toList) with
  | none => simp
  | some k =>
    by_cases hk : k < Decimal.addressCount
    · simp only [hk, if_true, Except.ok.injEq, Option.some.injEq]
      exact ⟨fun h => ⟨h, h ▸ hk⟩, And.left⟩
    · simp only [hk, if_false, reduceCtorEq, Option.some.injEq, false_iff]
      rintro ⟨rfl, hlt⟩
      exact hk hlt

theorem addressOfKey_eq_error {error : Mismatch} (h : addressOfKey key = .error error) :
    error = .invalidAddress key := by
  unfold addressOfKey at h
  split at h
  next =>
    split at h
    next => contradiction
    next => exact (Except.error.inj h).symm
  next => exact (Except.error.inj h).symm

theorem not_means_of_error {error : Mismatch} (h : addressOfKey key = .error error) (n : Nat) :
    ¬Means key n := by
  intro hmeans
  rw [addressOfKey_eq_ok_iff.2 hmeans] at h
  contradiction

theorem Means.unique {n k : Nat} (hn : Means key n) (hk : Means key k) : n = k :=
  Except.ok.inj ((addressOfKey_eq_ok_iff.2 hn).symm.trans (addressOfKey_eq_ok_iff.2 hk))

/-! ### Key after key -/

theorem mem_insert_iff {item : Option Value} {other : String} :
    other ∈ floor.insert key item ↔ other = key ∨ other ∈ floor := by
  rw [ExtTreeMap.mem_insert, LawfulEqOrd.compare_eq_iff_eq, eq_comm]

theorem stands_insert (hlast : ∀ other ∈ floor, other < key) {n k : Nat} (hkey : Means key k)
    {item x : Option Value} :
    Stands (floor.insert key item) n x ↔ if k = n then item = x else Stands floor n x := by
  have hself : (floor.insert key item)[key]? = some item := ExtTreeMap.getElem?_insert_self
  have hrest {other : String} (hne : other ≠ key) :
      (floor.insert key item)[other]? = floor[other]? := by
    rw [ExtTreeMap.getElem?_insert, if_neg]
    rw [LawfulEqOrd.compare_eq_iff_eq]
    exact hne.symm
  by_cases hn : k = n
  · subst hn
    rw [if_pos rfl]
    constructor
    · rintro ⟨other, hx, -, hgreatest⟩
      have hle : key ≤ other := hgreatest key (mem_insert_iff.2 (.inl rfl)) hkey
      have hmem : other ∈ floor.insert key item := by
        rw [ExtTreeMap.mem_iff_isSome_getElem?, hx]
        rfl
      rcases mem_insert_iff.1 hmem with rfl | hmem
      · exact Option.some.inj (hself.symm.trans hx)
      · exact absurd (hlast other hmem) hle.not_gt
    · rintro rfl
      refine ⟨key, hself, hkey, fun other hmem _ => ?_⟩
      rcases mem_insert_iff.1 hmem with rfl | hmem
      · exact le_rfl
      · exact (hlast other hmem).le
  · rw [if_neg hn]
    -- The new key means another address, so it is neither the decisive key nor above it.
    have hne {other : String} (hother : Means other n) : other ≠ key := by
      rintro rfl
      exact hn (hkey.unique hother)
    refine exists_congr fun other => ?_
    constructor
    · rintro ⟨hx, hmeans, hgreatest⟩
      rw [hrest (hne hmeans)] at hx
      exact ⟨hx, hmeans, fun third hthird => hgreatest third (mem_insert_iff.2 (.inr hthird))⟩
    · rintro ⟨hx, hmeans, hgreatest⟩
      refine ⟨(hrest (hne hmeans)).trans hx, hmeans, fun third hmem hthird => ?_⟩
      exact hgreatest third ((mem_insert_iff.1 hmem).resolve_left (hne hthird)) hthird

theorem Converts.insert {tiles : Tiles} (h : Converts floor (.ok tiles))
    (hlast : ∀ other ∈ floor, other < key) {k : Nat} (hkey : Means key k) (item : Option Value) :
    Converts (floor.insert key item) (.ok (tiles.insert k item)) := by
  cases h with
  | tiles hkeys haddresses hitems =>
    refine .tiles (fun other hmem => ?_) (fun n => ?_) fun n x => ?_
    · rcases mem_insert_iff.1 hmem with rfl | hmem
      · exact ⟨k, hkey⟩
      · exact hkeys other hmem
    · rw [ExtTreeMap.mem_insert, LawfulEqOrd.compare_eq_iff_eq, haddresses]
      constructor
      · rintro (rfl | ⟨other, hmem, hother⟩)
        · exact ⟨key, mem_insert_iff.2 (.inl rfl), hkey⟩
        · exact ⟨other, mem_insert_iff.2 (.inr hmem), hother⟩
      · rintro ⟨other, hmem, hother⟩
        rcases mem_insert_iff.1 hmem with rfl | hmem
        · exact .inl (hkey.unique hother)
        · exact .inr ⟨other, hmem, hother⟩
    · simp only [stands_insert hlast hkey, ExtTreeMap.getElem?_insert,
        LawfulEqOrd.compare_eq_iff_eq]
      split
      next => exact Option.some_inj
      next => exact hitems n x

def place (tiles : Tiles) (member : String × Option Value) : Except Mismatch Tiles :=
  return tiles.insert (← addressOfKey member.1) member.2

theorem converts_of_foldlM {members : List (String × Option Value)} {tiles : Tiles}
    (hsorted : members.Pairwise (·.1 < ·.1)) (h : members.foldlM place ∅ = .ok tiles) :
    Converts (.ofList members) (.ok tiles) := by
  -- The keys ascend, so each of them comes behind those that were taken before it.
  induction members using List.reverseRecOn generalizing tiles with
  | nil =>
    cases h
    exact .tiles (by simp) (by simp) (by simp [Stands])
  | append_singleton members member ih =>
    obtain ⟨key, item⟩ := member
    obtain ⟨hbefore, -, hbetween⟩ := List.pairwise_append.1 hsorted
    rw [List.foldlM_append, bind_eq_ok] at h
    obtain ⟨before, hfold, hlast⟩ := h
    rw [List.foldlM_cons, bind_eq_ok] at hlast
    obtain ⟨after, hplace, hdone⟩ := hlast
    cases hdone
    obtain ⟨n, hn, hinsert⟩ := bind_eq_ok.1 hplace
    cases hinsert
    rw [ExtTreeMap.ofList_eq_insertMany_empty, ExtTreeMap.insertMany_append,
      ExtTreeMap.insertMany_list_singleton, ← ExtTreeMap.ofList_eq_insertMany_empty]
    refine (ih hbefore hfold).insert (fun other hother => ?_) (addressOfKey_eq_ok_iff.1 hn) item
    obtain ⟨m, hm, rfl⟩ := List.mem_map.1 (mem_ofList_iff.1 hother)
    exact hbetween m hm (key, item) (List.mem_singleton_self _)

theorem converts_of_foldlM_error {members : List (String × Option Value)} {error : Mismatch}
    (hsorted : members.Pairwise (·.1 < ·.1)) (h : members.foldlM place ∅ = .error error) :
    Converts (.ofList members) (.error error) := by
  obtain ⟨front, ⟨key, item⟩, rest, tiles, rfl, hfront, hkey⟩ := exists_step_of_foldlM h
  obtain ⟨hsortedFront, hsortedRest, -⟩ := List.pairwise_append.1 hsorted
  rcases bind_eq_error.1 hkey with hbad | ⟨_, -, hpure⟩
  · rw [addressOfKey_eq_error hbad]
    refine .refused (by simp) (not_means_of_error hbad) fun other hother hnot => ?_
    obtain ⟨m, hm, rfl⟩ := List.mem_map.1 (mem_ofList_iff.1 hother)
    rcases List.mem_append.1 hm with hm | hm
    · cases converts_of_foldlM hsortedFront hfront with
      | tiles hkeys =>
        obtain ⟨n, hn⟩ := hkeys m.1 (mem_ofList_iff.2 (List.mem_map_of_mem hm))
        exact absurd hn (hnot n)
    · rcases List.mem_cons.1 hm with rfl | hm
      · exact le_rfl
      · exact (List.rel_of_pairwise_cons hsortedRest hm).le
  · contradiction

theorem Converts.unique {first second : Except Mismatch Tiles} (h : Converts floor first)
    (h' : Converts floor second) : first = second := by
  cases h with
  | tiles hkeys _ hitems =>
    cases h' with
    | tiles _ _ hitems' =>
      congr 1
      ext n item
      rw [hitems, hitems']
    | refused hmem hbad =>
      obtain ⟨n, hn⟩ := hkeys _ hmem
      exact absurd hn (hbad n)
  | refused hmem hbad hleast =>
    cases h' with
    | tiles hkeys =>
      obtain ⟨n, hn⟩ := hkeys _ hmem
      exact absurd hn (hbad n)
    | refused hmem' hbad' hleast' =>
      rw [le_antisymm (hleast _ hmem' hbad') (hleast' _ hmem hbad)]

theorem converts_ofMembers (members : List (String × Option Value)) :
    Converts (.ofList members) (ofMembers members) := by
  have hsorted : (ExtTreeMap.ofList members compare).toList.Pairwise (·.1 < ·.1) :=
    ExtTreeMap.ordered_keys_toList.imp compare_lt_iff_lt.1
  have hfold : ofMembers members = (ExtTreeMap.ofList members compare).toList.foldlM place ∅ := rfl
  rw [← ofList_toList (ExtTreeMap.ofList members compare), hfold]
  cases h : (ExtTreeMap.ofList members compare).toList.foldlM place ∅ with
  | ok tiles => exact converts_of_foldlM hsorted h
  | error error => exact converts_of_foldlM_error hsorted h

/-- Whatever the members of an object, what comes of it depends on the meaning of its keys
and on their order as texts alone. -/
theorem ofMembers_eq_iff_converts (members : List (String × Option Value)) :
    (∀ result, ofMembers members = result ↔ Converts (.ofList members) result) ∧
      ∀ key words, (Mismatch.invalidAddress key).message words =
        "invalid tile address '" ++ key ++ "'" ++ words := by
  refine ⟨fun result => ⟨?_, (converts_ofMembers members).unique⟩, fun _ _ => rfl⟩
  rintro rfl
  exact converts_ofMembers members

/-- Four keys mean the same address. -/
example : (ofMembers [("1", some (.int 1)), (" 1", none), ("+1", some (.letter 'A')),
    ("01", some (.int 0))]).toOption.bind (·[1]?) = some (some (.int 1)) := by
  decide +kernel

end TileMachine.Tiles
