import Std.Data.ExtTreeMap
import TileMachine.Value

/-! The floor: tiles by address. A tile that is present but holds nothing reads
like one that was never touched. -/
namespace TileMachine

abbrev Tiles := Std.ExtTreeMap Nat (Option Value)

instance : DecidableEq Tiles :=
  inferInstanceAs (DecidableEq (Std.ExtTreeMap Nat (Option Value)))

namespace Tiles

def read (tiles : Tiles) (address : Nat) : Option Value :=
  tiles[address]?.join

def ofItems (items : List (Option Value)) : Tiles :=
  .ofList (items.zipIdx.map Prod.swap)

def Valid (tiles : Tiles) : Prop :=
  ∀ address v, tiles.read address = some v → v.Valid

theorem read_insert (tiles : Tiles) (n : Nat) (item : Option Value) (k : Nat) :
    Tiles.read (tiles.insert n item) k = if k = n then item else tiles.read k := by
  unfold Tiles.read
  rw [Std.ExtTreeMap.getElem?_insert]
  by_cases hk : k = n
  · subst hk
    simp
  · simp [hk, Ne.symm hk]

theorem valid_empty : Valid ∅ := by
  intro address v hv
  contradiction

theorem Valid.insert {tiles : Tiles} (h : tiles.Valid) (n : Nat) {item : Option Value}
    (hitem : ∀ v ∈ item, v.Valid) : Valid (tiles.insert n item) := by
  intro address v hv
  rw [read_insert] at hv
  split at hv
  · exact hitem v hv
  · exact h address v hv

end Tiles
end TileMachine
