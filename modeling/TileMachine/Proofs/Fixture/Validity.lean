import TileMachine.Proofs.Fixture

/-! What a fixture holds is valid, whatever text it was read from: integers in range and
capital letters, on the floor and in the examples. A reader of records keeps a property of
what it has seen if each of its fields keeps it. -/
namespace TileMachine

namespace Json

variable {α β σ : Type} {P : α → Prop}

def Yields (read : Reader α) (P : α → Prop) : Prop :=
  ∀ tokens a rest, read tokens = .ok (a, rest) → P a

theorem Yields.map {read : Reader α} (h : Yields read P) {Q : β → Prop} (f : α → β)
    (hf : ∀ a, P a → Q (f a)) :
    Yields (fun tokens => do
      let (a, rest) ← read tokens
      return (f a, rest)) Q := by
  intro tokens b rest hread
  obtain ⟨⟨a, _⟩, ha, hb⟩ := bind_eq_ok.1 hread
  cases hb
  exact hf a (h _ _ _ ha)

theorem wrongType_ne_ok (depth : Nat) (tokens : List Token) (a : α) :
    wrongType depth tokens ≠ .ok a := by
  intro h
  unfold wrongType at h
  split at h
  · contradiction
  · contradiction
  · obtain ⟨_, -, hrefused⟩ := bind_eq_ok.1 h
    contradiction

theorem yields_readAll {item : Reader α} (h : Yields item P) (bound : Nat) {before : List α}
    (hbefore : ∀ a ∈ before, P a) : Yields (readAll item bound before) fun as => ∀ a ∈ as, P a := by
  induction bound generalizing before with
  | zero =>
    intro tokens as rest hread
    contradiction
  | succ bound ih =>
    intro tokens as rest hread
    rw [readAll] at hread
    obtain ⟨next?, -, hread⟩ := bind_eq_ok.1 hread
    cases next? with
    | none =>
      obtain ⟨_, -, hread⟩ := bind_eq_ok.1 hread
      cases hread
      simpa using hbefore
    | some tokens =>
      obtain ⟨⟨a, rest'⟩, ha, hread⟩ := bind_eq_ok.1 hread
      exact ih (List.forall_mem_cons.2 ⟨h _ _ _ ha, hbefore⟩) _ _ _ hread

theorem yields_readArray {item : Nat → Reader α} (h : ∀ depth, Yields (item depth) P)
    (depth : Nat) : Yields (readArray depth item) fun as => ∀ a ∈ as, P a := by
  intro tokens as rest hread
  unfold readArray at hread
  split at hread
  · contradiction
  · exact yields_readAll (h _) _ (by simp) _ _ _ hread
  · exact absurd hread (wrongType_ne_ok _ _ _)

theorem yields_readNullable {read : Reader α} (h : Yields read P) :
    Yields (readNullable read) fun found => ∀ a ∈ found, P a := by
  intro tokens found rest hread
  unfold readNullable at hread
  split at hread
  · cases hread
    simp
  · obtain ⟨⟨a, _⟩, ha, hread⟩ := bind_eq_ok.1 hread
    cases hread
    rintro _ ⟨⟩
    exact h _ _ _ ha

namespace Shape

/-- Every field keeps a property of what has been seen, and a record that is made from it
has another. -/
structure Keeps (shape : Shape σ α) (Seen : σ → Prop) (P : α → Prop) : Prop where
  empty : Seen shape.empty
  add : ∀ field ∈ shape.fields, ∀ depth seen, Seen seen → Yields (field.add depth seen) Seen
  close : ∀ seen a, Seen seen → shape.close seen = .ok a → P a

variable {shape : Shape σ α} {Seen : σ → Prop}

theorem Keeps.readFields (h : shape.Keeps Seen P) (depth bound : Nat) (first : Bool) {seen : σ}
    (hseen : Seen seen) : Yields (shape.readFields depth bound first seen) Seen := by
  induction bound generalizing first seen with
  | zero =>
    intro tokens final rest hread
    contradiction
  | succ bound ih =>
    intro tokens final rest hread
    rw [Shape.readFields] at hread
    obtain ⟨next?, -, hread⟩ := bind_eq_ok.1 hread
    rcases next? with _ | ⟨key, tokens⟩
    · obtain ⟨_, -, hread⟩ := bind_eq_ok.1 hread
      cases hread
      exact hseen
    · dsimp only at hread
      split at hread
      next =>
        obtain ⟨_, -, hread⟩ := bind_eq_ok.1 hread
        obtain ⟨_, -, hread⟩ := bind_eq_ok.1 hread
        exact ih _ hseen _ _ _ hread
      next field hfield =>
        split at hread
        next => contradiction
        next =>
          obtain ⟨_, -, hread⟩ := bind_eq_ok.1 hread
          obtain ⟨⟨next, _⟩, hnext, hread⟩ := bind_eq_ok.1 hread
          have hmem := List.mem_of_find?_eq_some hfield
          exact ih _ (h.add field hmem depth seen hseen _ _ _ hnext) _ _ _ hread

theorem Keeps.readPositions (h : shape.Keeps Seen P) (depth : Nat) {fields : List (Field σ)}
    (hfields : fields ⊆ shape.fields) (first : Bool) {seen : σ} (hseen : Seen seen) :
    Yields (Shape.readPositions depth fields first seen) Seen := by
  induction fields generalizing first seen with
  | nil =>
    intro tokens final rest hread
    cases hread
    exact hseen
  | cons field fields ih =>
    rw [List.cons_subset] at hfields
    intro tokens final rest hread
    rw [Shape.readPositions] at hread
    obtain ⟨next?, -, hread⟩ := bind_eq_ok.1 hread
    cases next? with
    | none => exact ih hfields.2 _ hseen _ _ _ hread
    | some tokens =>
      obtain ⟨⟨next, _⟩, hnext, hread⟩ := bind_eq_ok.1 hread
      exact ih hfields.2 _ (h.add field hfields.1 depth seen hseen _ _ _ hnext) _ _ _ hread

theorem Keeps.yields_read (h : shape.Keeps Seen P) (depth : Nat) :
    Yields (shape.read depth) P := by
  intro tokens a rest hread
  unfold Shape.read at hread
  split at hread
  · contradiction
  · contradiction
  · obtain ⟨⟨seen, _⟩, hseen, hread⟩ := bind_eq_ok.1 hread
    have hkept := h.readFields _ _ _ h.empty _ _ _ hseen
    dsimp only at hread
    split at hread
    next hclose =>
      cases hread
      exact h.close _ _ hkept hclose
    next => contradiction
  · obtain ⟨⟨seen, _⟩, hseen, hread⟩ := bind_eq_ok.1 hread
    have hkept := h.readPositions _ (List.Subset.refl _) _ h.empty _ _ _ hseen
    dsimp only at hread
    split at hread
    next hclose =>
      obtain ⟨_, -, hread⟩ := bind_eq_ok.1 hread
      cases hread
      exact h.close _ _ hkept hclose
    next => contradiction
  · exact absurd hread (wrongType_ne_ok _ _ _)

end Shape

theorem of_parse {read : Nat → Reader α} (h : ∀ depth, Yields (read depth) P) {text : String}
    {a : α} (hparse : parse read text = .ok a) : P a := by
  unfold parse at hparse
  obtain ⟨⟨b, rest⟩, hread, hparse⟩ := bind_eq_ok.1 hparse
  cases rest with
  | nil =>
    cases hparse
    exact h _ _ _ _ hread
  | cons token rest => contradiction

end Json

open Json

namespace Value

theorem valid_of_ofTree {tree : Tree} {v : Value} (h : ofTree tree = .ok v) : v.Valid := by
  unfold ofTree at h
  split at h
  next n =>
    split at h
    next hrange =>
      cases h
      exact hrange
    next => contradiction
  next s =>
    have hquoted := mapError_eq_ok.1 h
    unfold ofQuoted at hquoted
    split at hquoted
    next c _ =>
      unfold ofLetter at hquoted
      split at hquoted
      next halpha =>
        cases hquoted
        exact Text.isUpper_toUpper halpha
      next => contradiction
    next => contradiction
  next => contradiction

theorem yields_readJson (depth : Nat) : Yields (readJson depth) Valid := by
  intro tokens v rest hread
  unfold readJson at hread
  obtain ⟨⟨tree, _⟩, -, hread⟩ := bind_eq_ok.1 hread
  dsimp only at hread
  split at hread
  next htree =>
    cases hread
    exact valid_of_ofTree htree
  next => contradiction

end Value

namespace Tiles

theorem valid_of_itemOfTree {tree : Tree} {item : Option Value} (h : itemOfTree tree = .ok item) :
    ∀ v ∈ item, v.Valid := by
  unfold itemOfTree at h
  split at h
  · cases h
    simp
  · obtain ⟨w, hw, rfl⟩ := map_eq_ok.1 (mapError_eq_ok.1 h)
    rintro _ ⟨⟩
    exact Value.valid_of_ofTree hw

theorem valid_of_ofMembers {members : List (String × Option Value)} {tiles : Tiles}
    (hmembers : ∀ m ∈ members, ∀ v ∈ m.2, v.Valid) (h : ofMembers members = .ok tiles) :
    tiles.Valid := by
  have hbyKey : ∀ m ∈ (Std.ExtTreeMap.ofList members compare).toList, ∀ v ∈ m.2, v.Valid := by
    intro m hm
    rw [Std.ExtTreeMap.mem_toList_iff_getElem?_eq_some] at hm
    exact hmembers m (mem_of_getElem?_ofList hm)
  refine foldlM_keeps (P := Valid) (fun m hm tiles next htiles hnext => ?_) valid_empty h
  obtain ⟨n, -, hnext⟩ := bind_eq_ok.1 hnext
  cases hnext
  exact htiles.insert n (hbyKey m hm)

theorem valid_of_ofTree {tree : Tree} {tiles : Tiles} (h : ofTree tree = .ok tiles) :
    tiles.Valid := by
  unfold ofTree at h
  split at h
  next items =>
    obtain ⟨values, hvalues, rfl⟩ := map_eq_ok.1 h
    intro address v hv
    rw [read_ofItems, Option.join_eq_some_iff] at hv
    obtain ⟨tree, -, htree⟩ :=
      exists_mem_of_mem_left (mapM_eq_ok.1 hvalues).flip (List.mem_of_getElem? hv)
    exact valid_of_itemOfTree htree v rfl
  next members =>
    obtain ⟨entries, hentries, h⟩ := bind_eq_ok.1 h
    refine valid_of_ofMembers (fun m hm => ?_) h
    obtain ⟨⟨key, tree⟩, -, hentry⟩ := exists_mem_of_mem_left (mapM_eq_ok.1 hentries).flip hm
    obtain ⟨item, hitem, hm⟩ := bind_eq_ok.1 hentry
    cases hm
    exact valid_of_itemOfTree hitem
  next => contradiction

theorem yields_readJson (depth : Nat) : Yields (readJson depth) Valid := by
  intro tokens tiles rest hread
  unfold readJson at hread
  obtain ⟨⟨tree, _⟩, -, hread⟩ := bind_eq_ok.1 hread
  dsimp only at hread
  split at hread
  next htree =>
    cases hread
    exact valid_of_ofTree htree
  next => contradiction

end Tiles

namespace Example

def Partial.Valid (seen : Partial) : Prop :=
  ∀ values, seen.inbox = some values ∨ seen.outbox = some values → ∀ v ∈ values, v.Valid

theorem keeps_valid : shape.Keeps Partial.Valid Valid where
  empty := by
    intro values hvalues
    simp [shape] at hvalues
  add field hfield depth seen hseen := by
    have hread := yields_readArray Value.yields_readJson depth
    simp only [shape, List.mem_cons, List.not_mem_nil, or_false] at hfield
    rcases hfield with rfl | rfl
    · refine hread.map (fun inbox => { seen with inbox := some inbox }) fun inbox hinbox => ?_
      rintro values (hin | hout)
      · cases hin
        exact hinbox
      · exact hseen values (.inr hout)
    · refine hread.map (fun outbox => { seen with outbox := some outbox }) fun outbox houtbox => ?_
      rintro values (hin | hout)
      · exact hseen values (.inl hin)
      · cases hout
        exact houtbox
  close seen e hseen hclose := by
    obtain ⟨_ | inbox, _ | outbox⟩ := seen
    · contradiction
    · contradiction
    · contradiction
    · cases hclose
      intro v hv
      rcases List.mem_append.1 hv with hin | hout
      · exact hseen inbox (.inl rfl) v hin
      · exact hseen outbox (.inr rfl) v hout

end Example

namespace Fixture

theorem keeps_levelShape :
    levelShape.Keeps (fun seen => ∀ tiles ∈ seen, tiles.Valid) Tiles.Valid where
  empty := by simp [levelShape]
  add field hfield depth seen hseen := by
    simp only [levelShape, List.mem_singleton] at hfield
    subst hfield
    refine (Tiles.yields_readJson depth).map some fun tiles htiles => ?_
    rintro _ ⟨⟩
    exact htiles
  close seen tiles hseen hclose := by
    cases hclose
    cases seen with
    | none => exact Tiles.valid_empty
    | some tiles => exact hseen tiles rfl

structure Partial.Valid (seen : Partial) : Prop where
  floor : ∀ tiles, seen.tiles.join = some tiles ∨ seen.floor.join = some tiles → tiles.Valid
  examples : ∀ examples, seen.examples = some examples → ∀ e ∈ examples, e.Valid

theorem Partial.Valid.floorTiles {seen : Partial} (h : seen.Valid) : seen.floorTiles.Valid := by
  unfold Partial.floorTiles
  cases htiles : seen.tiles.join with
  | some tiles => exact h.floor tiles (.inl htiles)
  | none =>
    cases hfloor : seen.floor.join with
    | some tiles => exact h.floor tiles (.inr hfloor)
    | none => exact Tiles.valid_empty

structure Valid (fixture : Fixture) : Prop where
  tiles : fixture.tiles.Valid
  examples : ∀ e ∈ fixture.examples, e.Valid

theorem keeps_valid : shape.Keeps Partial.Valid Valid where
  empty := by
    refine ⟨fun tiles htiles => ?_, fun examples hexamples => ?_⟩
    · simp [shape] at htiles
    · simp [shape] at hexamples
  add field hfield depth seen hseen := by
    simp only [shape, List.mem_cons, List.not_mem_nil, or_false] at hfield
    rcases hfield with rfl | rfl | rfl
    · have hread := yields_readNullable (Tiles.yields_readJson depth)
      refine hread.map (fun found => { seen with tiles := some found }) fun found hfound => ?_
      refine ⟨?_, hseen.examples⟩
      rintro tiles (htiles | hfloor)
      · exact hfound tiles htiles
      · exact hseen.floor tiles (.inr hfloor)
    · have hread := yields_readNullable (keeps_levelShape.yields_read depth)
      refine hread.map (fun found => { seen with floor := some found }) fun found hfound => ?_
      refine ⟨?_, hseen.examples⟩
      rintro tiles (htiles | hfloor)
      · exact hseen.floor tiles (.inl htiles)
      · exact hfound tiles hfloor
    · have hread := yields_readArray Example.keeps_valid.yields_read depth
      refine hread.map (fun found => { seen with examples := some found }) fun found hfound => ?_
      refine ⟨hseen.floor, ?_⟩
      rintro examples ⟨⟩
      exact hfound
  close seen fixture hseen hclose := by
    obtain ⟨tiles, floor, _ | examples⟩ := seen
    · contradiction
    · cases hclose
      exact ⟨hseen.floorTiles, hseen.examples examples rfl⟩

theorem valid_of_parse {text : String} {fixture : Fixture} (h : parse text = .ok fixture) :
    fixture.Valid :=
  of_parse keeps_valid.yields_read h

end Fixture

end TileMachine
