import TileMachine.Fixture
import TileMachine.Proofs.Json.Trees
import TileMachine.Proofs.Tiles.Notations

/-! Fixtures as they are written: the floor as a list or as an object, at the top or inside
an object of its own, and the members of each object in any order. Reading gives back the
items on their tiles and the examples. -/
namespace TileMachine

open Json

theorem plain_pair {depth : Nat} {members : List (String × Tree)} {key key' : String}
    {tree tree' : Tree} (hmembers : members.Perm [(key, tree), (key', tree')])
    (hkeys : key.toList.all Char.isAlpha = true ∧ key'.toList.all Char.isAlpha = true)
    (htree : tree.Plain depth) (htree' : tree'.Plain depth) :
    (Tree.object members).Plain (depth + 1) := by
  have hplain : ∀ m ∈ members, m.1.toList.all Char.isAlpha = true ∧ m.2.Plain depth := by
    intro m hm
    rcases List.mem_pair.1 (hmembers.mem_iff.1 hm) with rfl | rfl
    · exact ⟨hkeys.1, htree⟩
    · exact ⟨hkeys.2, htree'⟩
  refine .object (fun m hm c hc => ?_) fun m hm => (hplain m hm).2
  exact isPlain_of_isAlpha (List.all_eq_true.1 (hplain m hm).1 c hc)

namespace Value

/-- A letter may be written in either case. -/
inductive Written : Value → Tree → Prop where
  | int (n : Int) : Written (.int n) (.number (.int n))
  | letter {c d : Char} (hd : d = c ∨ d = c.toLower) : Written (.letter c) (.text (.singleton d))

variable {v : Value} {tree : Tree}

theorem letter_of_either_case {c d : Char} (hc : c.isUpper = true) (hd : d = c ∨ d = c.toLower) :
    d.isAlpha = true ∧ d.toUpper = c := by
  obtain ⟨hsame, hletter, hback⟩ := Text.toUpper_of_isUpper hc
  rcases hd with rfl | rfl
  · exact ⟨Text.isAlpha_of_isUpper hc, hsame⟩
  · exact ⟨hletter, hback⟩

theorem ofTree_of_written (h : v.Written tree) (hv : v.Valid) : ofTree tree = .ok v := by
  cases h with
  | int n => exact if_pos hv
  | @letter c d hd =>
    obtain ⟨halpha, hupper⟩ := letter_of_either_case hv hd
    have hquoted : ofQuoted (.singleton d) = .ok (letter c) := by
      unfold ofQuoted
      rw [String.toList_singleton]
      dsimp only
      rw [ofLetter, if_pos halpha, hupper]
    rw [ofTree, hquoted]
    rfl

theorem plain_of_written (h : v.Written tree) (hv : v.Valid) (depth : Nat) : tree.Plain depth := by
  cases h with
  | int n => exact .int hv
  | @letter c d hd =>
    refine .text fun e he => ?_
    rw [String.toList_singleton, List.mem_singleton] at he
    rw [he]
    exact isPlain_of_isAlpha (letter_of_either_case hv hd).1

theorem forall_plain_of_written {values : List Value} {trees : List Tree}
    (h : List.Forall₂ Written values trees) (hvalid : ∀ v ∈ values, v.Valid) (depth : Nat) :
    ∀ tree ∈ trees, tree.Plain depth := by
  intro tree htree
  obtain ⟨v, hv, hwritten⟩ := exists_mem_of_mem_left h.flip htree
  exact plain_of_written hwritten (hvalid v hv) depth

theorem reads_readJson (h : v.Written tree) (hv : v.Valid) (depth : Nat) :
    Reads (readJson depth) tree v := by
  intro rest
  unfold readJson
  rw [reads_read (plain_of_written h hv depth) rest]
  simp only [bind, Except.bind, ofTree_of_written h hv]
  rfl

theorem forall₂_reads_readJson {values : List Value} {trees : List Tree}
    (h : List.Forall₂ Written values trees) (hvalid : ∀ v ∈ values, v.Valid) (depth : Nat) :
    List.Forall₂ (Reads (readJson depth)) trees values :=
  (forall₂_imp_of_mem h fun v hv _ htree => reads_readJson htree (hvalid v hv) depth).flip

end Value

namespace Tiles

inductive WrittenItem : Option Value → Tree → Prop where
  | empty : WrittenItem none .null
  | value {v : Value} {tree : Tree} (h : v.Written tree) : WrittenItem (some v) tree

/-- A list of the items, or an object with their addresses as keys. -/
inductive Written (items : List (Option Value)) : Tree → Prop where
  | list {trees : List Tree} (htrees : List.Forall₂ WrittenItem items trees) :
      Written items (.array trees)
  | object {trees : List Tree} {members : List (String × Tree)}
      (htrees : List.Forall₂ WrittenItem items trees)
      (hlength : items.length ≤ Decimal.addressCount) (hmembers : members.Perm (indexed trees)) :
      Written items (.object members)

variable {items : List (Option Value)} {tree : Tree}

theorem Written.ne_null (h : Written items tree) : tree ≠ .null := by
  cases h <;> simp

theorem itemOfTree_of_written {item : Option Value} (h : WrittenItem item tree)
    (hvalid : ∀ v, item = some v → v.Valid) : itemOfTree tree = .ok item := by
  cases h with
  | empty => rfl
  | @value v tree h =>
    have hv := Value.ofTree_of_written h (hvalid v rfl)
    cases h <;> simp only [itemOfTree, hv] <;> rfl

theorem plain_item_of_written {item : Option Value} (h : WrittenItem item tree)
    (hvalid : ∀ v, item = some v → v.Valid) (depth : Nat) : tree.Plain depth := by
  cases h with
  | empty => exact .null
  | value h => exact Value.plain_of_written h (hvalid _ rfl) depth

theorem forall₂_indexed {α β : Type} {R : α → β → Prop} {as : List α} {bs : List β}
    (h : List.Forall₂ R as bs) :
    List.Forall₂ (fun m m' => m.1 = m'.1 ∧ R m.2 m'.2) (indexed as) (indexed bs) := by
  unfold indexed
  rw [List.forall₂_map_left_iff, List.forall₂_map_right_iff]
  generalize 0 = start
  induction h generalizing start with
  | nil => exact .nil
  | cons hab _ ih => exact .cons ⟨rfl, hab⟩ (ih (start + 1))

theorem mem_indexed {α : Type} {items : List α} {m : String × α} (h : m ∈ indexed items) :
    (∃ n, m.1 = Decimal.ofNat n) ∧ m.2 ∈ items := by
  obtain ⟨⟨item, n⟩, hmem, rfl⟩ := List.mem_map.1 h
  exact ⟨⟨n, rfl⟩, List.fst_mem_of_mem_zipIdx hmem⟩

variable (hvalid : ∀ v, some v ∈ items → v.Valid)
include hvalid

theorem forall₂_itemOfTree {trees : List Tree} (h : List.Forall₂ WrittenItem items trees) :
    List.Forall₂ (fun tree item => itemOfTree tree = .ok item) trees items := by
  refine (forall₂_imp_of_mem h fun item hitem tree htree => ?_).flip
  exact itemOfTree_of_written htree fun v hv => hvalid v (hv ▸ hitem)

theorem ofTree_of_written (h : Written items tree) : ofTree tree = .ok (ofItems items) := by
  cases h with
  | list htrees => exact map_eq_ok.2 ⟨items, mapM_eq_ok.2 (forall₂_itemOfTree hvalid htrees), rfl⟩
  | object htrees hlength hmembers =>
    obtain ⟨read, hread, hperm⟩ :=
      List.perm_comp_forall₂ hmembers (forall₂_indexed (forall₂_itemOfTree hvalid htrees))
    refine bind_eq_ok.2 ⟨read, mapM_eq_ok.2 (hread.imp ?_), ofMembers_indexed hlength hperm⟩
    rintro ⟨key, tree⟩ ⟨_, item⟩ ⟨rfl, hitem⟩
    dsimp only at hitem ⊢
    rw [hitem]
    rfl

theorem plain_of_written (h : Written items tree) (depth : Nat) : tree.Plain (depth + 1) := by
  have hplain {trees : List Tree} (htrees : List.Forall₂ WrittenItem items trees) :
      ∀ tree ∈ trees, tree.Plain depth := by
    intro tree htree
    obtain ⟨item, hitem, hwritten⟩ := exists_mem_of_mem_left htrees.flip htree
    exact plain_item_of_written hwritten (fun v hv => hvalid v (hv ▸ hitem)) depth
  cases h with
  | list htrees => exact .array (hplain htrees)
  | object htrees hlength hmembers =>
    refine .object (fun m hm => ?_) fun m hm => ?_
    · obtain ⟨n, hn⟩ := (mem_indexed (hmembers.mem_iff.1 hm)).1
      rw [hn]
      exact fun c hc => isPlain_of_isDigit (Decimal.isDigit_of_mem_ofNat hc)
    · exact hplain htrees m.2 (mem_indexed (hmembers.mem_iff.1 hm)).2

theorem reads_readJson (h : Written items tree) (depth : Nat) :
    Reads (readJson (depth + 1)) tree (ofItems items) := by
  intro rest
  unfold readJson
  rw [reads_read (plain_of_written hvalid h depth) rest]
  simp only [bind, Except.bind, ofTree_of_written hvalid h]
  rfl

end Tiles

namespace Example

inductive Written (e : Example) : Tree → Prop where
  | object {inbox outbox : List Tree} {members : List (String × Tree)}
      (hinbox : List.Forall₂ Value.Written e.inbox inbox)
      (houtbox : List.Forall₂ Value.Written e.outbox outbox)
      (hmembers : members.Perm [("inbox", .array inbox), ("outbox", .array outbox)]) :
      Written e (.object members)

def Valid (e : Example) : Prop :=
  ∀ v ∈ e.inbox ++ e.outbox, v.Valid

variable {e : Example} {tree : Tree}

theorem reads_read (he : e.Valid) (h : e.Written tree) (depth : Nat) :
    Reads (shape.read (depth + 2)) tree e := by
  cases h with
  | object hinbox houtbox hmembers =>
    have hin (seen : Partial) := (reads_readArray (Value.forall₂_reads_readJson hinbox
      (fun v hv => he v (List.mem_append_left _ hv)) depth)).map fun values =>
        { seen with inbox := some values }
    have hout (seen : Partial) := (reads_readArray (Value.forall₂_reads_readJson houtbox
      (fun v hv => he v (List.mem_append_right _ hv)) depth)).map fun values =>
        { seen with outbox := some values }
    exact Shape.reads_read_pair hmembers rfl rfl hin hout ⟨rfl, rfl⟩ ⟨rfl, rfl⟩ rfl rfl

theorem plain_of_written (he : e.Valid) (h : e.Written tree) (depth : Nat) :
    tree.Plain (depth + 2) := by
  cases h with
  | object hinbox houtbox hmembers =>
    refine plain_pair hmembers (by simp) (.array ?_) (.array ?_)
    · exact Value.forall_plain_of_written hinbox (fun v hv => he v (List.mem_append_left _ hv)) depth
    · exact Value.forall_plain_of_written houtbox (fun v hv => he v (List.mem_append_right _ hv)) depth

theorem forall₂_reads_read {examples : List Example} {trees : List Tree}
    (h : List.Forall₂ Written examples trees) (hvalid : ∀ e ∈ examples, e.Valid) (depth : Nat) :
    List.Forall₂ (Reads (shape.read (depth + 2))) trees examples :=
  (forall₂_imp_of_mem h fun e he _ htree => reads_read (hvalid e he) htree depth).flip

theorem forall_plain_of_written {examples : List Example} {trees : List Tree}
    (h : List.Forall₂ Written examples trees) (hvalid : ∀ e ∈ examples, e.Valid) (depth : Nat) :
    ∀ tree ∈ trees, tree.Plain (depth + 2) := by
  intro tree htree
  obtain ⟨e, he, hwritten⟩ := exists_mem_of_mem_left h.flip htree
  exact plain_of_written (hvalid e he) hwritten depth

end Example

namespace Fixture

/-- The floor at the top, or inside an object of its own. -/
inductive Written (items : List (Option Value)) (examples : List Example) : Tree → Prop where
  | tiles {floor : Tree} {trees : List Tree} {members : List (String × Tree)}
      (hfloor : Tiles.Written items floor) (htrees : List.Forall₂ Example.Written examples trees)
      (hmembers : members.Perm [("tiles", floor), ("examples", .array trees)]) :
      Written items examples (.object members)
  | floor {floor : Tree} {trees : List Tree} {members : List (String × Tree)}
      (hfloor : Tiles.Written items floor) (htrees : List.Forall₂ Example.Written examples trees)
      (hmembers : members.Perm [("floor", .object [("tiles", floor)]), ("examples", .array trees)]) :
      Written items examples (.object members)

variable {items : List (Option Value)} {examples : List Example} {tree : Tree}

theorem reads_read (hitems : ∀ v, some v ∈ items → v.Valid) (hexamples : ∀ e ∈ examples, e.Valid)
    (h : Written items examples tree) (depth : Nat) :
    Reads (shape.read (depth + 4)) tree ⟨Tiles.ofItems items, examples⟩ := by
  have hread {trees : List Tree} (htrees : List.Forall₂ Example.Written examples trees)
      (seen : Partial) :=
    (reads_readArray (Example.forall₂_reads_read htrees hexamples depth)).map fun examples =>
      { seen with examples := some examples }
  cases h with
  | @tiles floor trees members hfloor htrees hmembers =>
    have htiles (seen : Partial) := (reads_readNullable (Tiles.reads_readJson hitems hfloor (depth + 2))
      hfloor.ne_null).map fun tiles => { seen with tiles := some tiles }
    exact Shape.reads_read_pair hmembers rfl rfl htiles (hread htrees) ⟨rfl, rfl⟩ ⟨rfl, rfl⟩ rfl rfl
  | @floor floor trees members hfloor htrees hmembers =>
    have hlevel : Reads (levelShape.read (depth + 3)) (.object [("tiles", floor)])
        (Tiles.ofItems items) :=
      Shape.reads_read (.field rfl rfl ((Tiles.reads_readJson hitems hfloor (depth + 1)).map some)
        (.done _)) rfl
    have hfloor (seen : Partial) := (reads_readNullable hlevel (by simp)).map fun tiles =>
      { seen with floor := some tiles }
    exact Shape.reads_read_pair hmembers rfl rfl hfloor (hread htrees) ⟨rfl, rfl⟩ ⟨rfl, rfl⟩ rfl rfl

theorem plain_of_written (hitems : ∀ v, some v ∈ items → v.Valid)
    (hexamples : ∀ e ∈ examples, e.Valid) (h : Written items examples tree) (depth : Nat) :
    tree.Plain (depth + 4) := by
  cases h with
  | tiles hfloor htrees hmembers =>
    refine plain_pair hmembers (by simp) ?_ (.array ?_)
    · exact Tiles.plain_of_written hitems hfloor (depth + 2)
    · exact Example.forall_plain_of_written htrees hexamples depth
  | floor hfloor htrees hmembers =>
    refine plain_pair hmembers (by simp) (.object ?_ ?_) (.array ?_)
    · exact List.forall_mem_singleton.2 fun c hc =>
        isPlain_of_isAlpha (List.all_eq_true.1 (by simp) c hc)
    · exact List.forall_mem_singleton.2 (Tiles.plain_of_written hitems hfloor (depth + 1))
    · exact Example.forall_plain_of_written htrees hexamples depth

/-- Whatever way a fixture is written, it is read back: each item stands on the tile with its
index, an empty one too, there is no other tile, and the examples are those that were
written. The text may hold blanks between its tokens. -/
theorem parse_of_written {items : List (Option Value)} {examples : List Example} {tree : Tree}
    (hitems : ∀ v, some v ∈ items → v.Valid) (hexamples : ∀ e ∈ examples, e.Valid)
    (h : Written items examples tree) :
    ∃ fixture : Fixture, parse tree.compact = .ok fixture ∧
      (∀ json, Spells tree.tokens json.toList → parse json = .ok fixture) ∧
      (∀ n : Nat, fixture.tiles[n]? = items[n]?) ∧ fixture.examples = examples := by
  have hread := reads_read hitems hexamples h 123
  have hparse (json : String) (hjson : Spells tree.tokens json.toList) :=
    parse_of_spells hread hjson
  exact ⟨_, hparse _ (spells_compact (plain_of_written hitems hexamples h 0)), hparse,
    Tiles.getElem?_ofItems items, rfl⟩

theorem parse_of_written_floor :
    let items : List (Option Value) :=
      [some (.int (-9223372036854775808)), none, some (.letter 'Q')]
    let examples : List Example := [⟨[.letter 'A', .int 9223372036854775807], []⟩]
    let tree : Tree := .object [
      ("examples", .array [.object [("outbox", .array []),
        ("inbox", .array [.text "a", .number (.int 9223372036854775807)])]]),
      ("floor", .object [("tiles", .object [("2", .text "q"), ("0", .number (.int (-9223372036854775808))),
        ("1", .null)])])]
    Written items examples tree ∧
      tree.compact = "\x7b\"examples\":[\x7b\"outbox\":[],\"inbox\":[\"a\",9223372036854775807]\x7d]," ++
        "\"floor\":\x7b\"tiles\":\x7b\"2\":\"q\",\"0\":-9223372036854775808,\"1\":null\x7d\x7d\x7d" ∧
      ∃ fixture, parse tree.compact = .ok fixture ∧
        fixture.tiles[1]? = some none ∧ fixture.tiles[2]? = some (some (.letter 'Q')) ∧
        fixture.tiles[3]? = none ∧ fixture.examples = examples := by
  intro items examples tree
  have hwritten : Written items examples tree := by
    have hfloor : List.Forall₂ Tiles.WrittenItem items
        [.number (.int (-9223372036854775808)), .null, .text (.singleton 'q')] :=
      .cons (.value (.int _)) (.cons .empty (.cons (.value (.letter (.inr rfl))) .nil))
    have hinbox : List.Forall₂ Value.Written [.letter 'A', .int 9223372036854775807]
        [.text (.singleton 'a'), .number (.int 9223372036854775807)] :=
      .cons (.letter (.inr rfl)) (.cons (.int _) .nil)
    have hmembers := @List.perm_append_comm (String × Tree) [("2", .text "q")]
      [("0", .number (.int (-9223372036854775808))), ("1", .null)]
    exact .floor (.object hfloor (by decide) hmembers)
      (.cons (.object hinbox .nil (.swap _ _ _)) .nil) (.swap _ _ _)
  have hitems : ∀ v, some v ∈ items → v.Valid := by
    intro v hv
    have hmem : v ∈ items.filterMap id := List.mem_filterMap.2 ⟨_, hv, rfl⟩
    have hall : ∀ w ∈ items.filterMap id, w.Valid := by decide
    exact hall v hmem
  have hexamples : ∀ e ∈ examples, e.Valid := by
    refine List.forall_mem_singleton.2 ?_
    unfold Example.Valid
    decide
  obtain ⟨fixture, hparse, -, htiles, hread⟩ := parse_of_written hitems hexamples hwritten
  refine ⟨hwritten, by decide +kernel, fixture, hparse, ?_, ?_, ?_, hread⟩
  · rw [htiles]
    rfl
  · rw [htiles]
    rfl
  · rw [htiles]
    rfl

end Fixture

end TileMachine
