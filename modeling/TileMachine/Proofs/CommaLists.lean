import TileMachine.Proofs.InputList
import TileMachine.Proofs.Text.Numerals

/-! The lists of the command line accept exactly their grammar, which is stated here without
a reader: what stands between commas, what an item denotes, and which item is complained of
if one denotes nothing. -/
namespace TileMachine

/-! ### Items -/

/-- What an item of a list denotes. Blanks around it do not count. -/
inductive Value.Denotes (item : List Char) : Value → Prop where
  | letter {c : Char} : Text.trim item = [c] → c.isAlpha = true →
      Denotes item (.letter c.toUpper)
  | integer {n : Int} : Decimal.Signed (Text.trim item) n → Decimal.InRange n →
      Denotes item (.int n)

inductive Tiles.Leaves (item : List Char) : Option Value → Prop where
  | nothing : (∀ c ∈ item, Text.isBlank c = true) → Leaves item none
  | value {v : Value} : Value.Denotes item v → Leaves item (some v)

structure Text.Separates (text : String) (items : List (List Char)) : Prop where
  ne_nil : items ≠ []
  no_comma : ∀ item ∈ items, ',' ∉ item
  joined : [','].intercalate items = text.toList

/-! ### Reading an item -/

namespace Value

theorem integer_eq_ok_iff {cs : List Char} {v : Value} : ofChars.integer cs = .ok v ↔
    ∃ n, Decimal.Signed cs n ∧ Decimal.InRange n ∧ v = .int n := by
  simp only [← Decimal.integer?_eq_some_iff]
  unfold ofChars.integer
  cases Decimal.integer? cs with
  | none => simp
  | some n =>
    by_cases hrange : Decimal.InRange n
    · simp [hrange, eq_comm]
    · simp [hrange]

theorem integer_eq_error {cs : List Char} {error : ValueError}
    (h : ofChars.integer cs = .error error) : error = .invalid (String.ofList cs) := by
  unfold ofChars.integer at h
  split at h
  next =>
    split at h
    next => contradiction
    next => exact (Except.error.inj h).symm
  next => exact (Except.error.inj h).symm

/-- A letter is no numeral, so the two ways to read an item exclude each other. -/
theorem not_signed_of_isAlpha {c : Char} (h : c.isAlpha = true) (n : Int) :
    ¬Decimal.Signed [c] n := by
  intro hsigned
  cases hsigned with
  | minus hdigits => exact hdigits.1 rfl
  | unsigned hunsigned =>
    cases hunsigned with
    | plus hdigits => exact hdigits.1 rfl
    | plain hdigits =>
      have hdigit := Text.toNat_of_isDigit (hdigits.2 c (List.mem_singleton_self c))
      have hletter := Text.toNat_of_isAlpha h
      omega

theorem not_denotes_of_blank {item : List Char} (h : Text.trim item = []) (v : Value) :
    ¬Denotes item v := by
  intro hdenotes
  cases hdenotes with
  | letter hc =>
    rw [h] at hc
    contradiction
  | integer hsigned =>
    rw [h] at hsigned
    cases hsigned with
    | unsigned hunsigned =>
      cases hunsigned with
      | plain hdigits => exact hdigits.1 rfl

theorem ofChars_cases (item : List Char) :
    (∃ c, Text.trim item = [c] ∧ c.isAlpha = true ∧ ofChars item = .ok (.letter c.toUpper)) ∨
      (∀ c, Text.trim item = [c] → ¬c.isAlpha = true) ∧
        ofChars item = ofChars.integer (Text.trim item) := by
  unfold ofChars
  split
  next c hc =>
    by_cases halpha : c.isAlpha = true
    · exact .inl ⟨c, hc, halpha, if_pos halpha⟩
    · refine .inr ⟨fun d hd => ?_, ?_⟩
      · rw [hc, List.singleton_inj] at hd
        rwa [← hd]
      · rw [if_neg halpha, hc]
  next hnot => exact .inr ⟨fun c hc => absurd hc (hnot c), rfl⟩

theorem ofChars_eq_ok_iff {item : List Char} {v : Value} :
    ofChars item = .ok v ↔ Denotes item v := by
  rcases ofChars_cases item with ⟨c, hc, halpha, hread⟩ | ⟨hnot, hread⟩
  · rw [hread]
    constructor
    · rintro ⟨⟩
      exact .letter hc halpha
    · intro h
      cases h with
      | letter hd =>
        rw [hc, List.singleton_inj] at hd
        rw [hd]
      | integer hsigned => exact absurd (hc ▸ hsigned) (not_signed_of_isAlpha halpha _)
  · rw [hread, integer_eq_ok_iff]
    constructor
    · rintro ⟨n, hsigned, hrange, rfl⟩
      exact .integer hsigned hrange
    · intro h
      cases h with
      | letter hc halpha => exact absurd halpha (hnot _ hc)
      | integer hsigned hrange => exact ⟨_, hsigned, hrange, rfl⟩

theorem ofChars_eq_error {item : List Char} {error : ValueError}
    (h : ofChars item = .error error) : error = .invalid (String.ofList (Text.trim item)) := by
  rcases ofChars_cases item with ⟨c, -, -, hread⟩ | ⟨-, hread⟩
  · rw [hread] at h
    contradiction
  · exact integer_eq_error (hread ▸ h)

end Value

namespace Tiles

theorem parseItem_eq_ok_iff {item : List Char} {content : Option Value} :
    parseItem item = .ok content ↔ Leaves item content := by
  unfold parseItem
  by_cases hblank : Text.trim item = []
  · rw [if_pos (by simp [hblank])]
    constructor
    · rintro ⟨⟩
      exact .nothing (Text.trim_eq_nil_iff.1 hblank)
    · intro h
      cases h with
      | nothing => rfl
      | value hdenotes => exact absurd hdenotes (Value.not_denotes_of_blank hblank _)
  · rw [if_neg (by simpa using hblank), map_eq_ok]
    constructor
    · rintro ⟨v, hv, rfl⟩
      exact .value (Value.ofChars_eq_ok_iff.1 hv)
    · intro h
      cases h with
      | nothing hall => exact absurd (Text.trim_eq_nil_iff.2 hall) hblank
      | value hdenotes => exact ⟨_, Value.ofChars_eq_ok_iff.2 hdenotes, rfl⟩

theorem parseItem_eq_error {item : List Char} {error : ValueError}
    (h : parseItem item = .error error) : error = .invalid (String.ofList (Text.trim item)) := by
  unfold parseItem at h
  split at h
  next => contradiction
  next => exact Value.ofChars_eq_error (map_eq_error.1 h)

end Tiles

/-! ### Reading a list -/

theorem Text.comma_not_mem_splitOn (cs : List Char) : ∀ item ∈ cs.splitOn ',', ',' ∉ item := by
  induction cs with
  | nil => simp
  | cons c cs ih =>
    rw [List.splitOn_cons_eq_if_modifyHead]
    by_cases hc : c = ','
    · rw [if_pos (beq_iff_eq.2 hc), List.forall_mem_cons]
      exact ⟨List.not_mem_nil, ih⟩
    · rw [if_neg (by simpa using hc)]
      cases hsplit : cs.splitOn ',' with
      | nil => simp
      | cons first rest =>
        rw [hsplit, List.forall_mem_cons] at ih
        rw [List.modifyHead_cons, List.forall_mem_cons, List.mem_cons, not_or]
        exact ⟨⟨Ne.symm hc, ih.1⟩, ih.2⟩

theorem Text.separates_iff {text : String} {items : List (List Char)} :
    Separates text items ↔ text.toList.splitOn ',' = items := by
  constructor
  · intro h
    rw [← h.joined, List.splitOn_intercalate ',' h.no_comma h.ne_nil]
  · rintro rfl
    exact ⟨List.splitOn_ne_nil _ _, comma_not_mem_splitOn _, List.intercalate_splitOn ','⟩

/-- What comes of the items of a list: all that they stand for, in order, or a complaint
about the first of them that stands for nothing. -/
inductive Collects {α : Type} (Stands : List Char → α → Prop) (items : List (List Char)) :
    Except ValueError (List α) → Prop where
  | all {contents : List α} : List.Forall₂ Stands items contents →
      Collects Stands items (.ok contents)
  | refused {front rest : List (List Char)} {item : List Char} :
      items = front ++ item :: rest → (∀ x ∈ front, ∃ content, Stands x content) →
      (∀ content, ¬Stands item content) →
      Collects Stands items (.error (.invalid (String.ofList (Text.trim item))))

theorem mapM_eq_iff_collects {α : Type} {Stands : List Char → α → Prop}
    {read : List Char → Except ValueError α}
    (hok : ∀ {item content}, read item = .ok content ↔ Stands item content)
    (herror : ∀ {item error}, read item = .error error →
      error = .invalid (String.ofList (Text.trim item)))
    (items : List (List Char)) (result : Except ValueError (List α)) :
    items.mapM read = result ↔ Collects Stands items result := by
  constructor
  · intro h
    cases result with
    | ok contents => exact .all ((mapM_eq_ok.1 h).imp fun _ _ => hok.1)
    | error error =>
      obtain ⟨front, item, rest, hitems, hitem, hfront⟩ := exists_first_of_mapM h
      rw [herror hitem]
      refine .refused hitems (fun x hx => ?_) fun content hcontent => ?_
      · obtain ⟨content, hcontent⟩ := hfront x hx
        exact ⟨content, hok.1 hcontent⟩
      · rw [hok.2 hcontent] at hitem
        contradiction
  · intro h
    cases h with
    | all hall => exact mapM_eq_ok.2 (hall.imp fun _ _ => hok.2)
    | @refused front rest item hitems hfront hitem =>
      subst hitems
      cases hread : read item with
      | ok content => exact absurd (hok.1 hread) (hitem content)
      | error error =>
        rw [← herror hread]
        refine mapM_append_cons_of_error (fun x hx => ?_) hread rest
        obtain ⟨content, hcontent⟩ := hfront x hx
        exact ⟨content, hok.2 hcontent⟩

inductive Value.Lists (text : String) : Except ValueError (List Value) → Prop where
  | blank : (∀ c ∈ text.toList, Text.isBlank c = true) → Lists text (.ok [])
  | items {items : List (List Char)} {result : Except ValueError (List Value)} :
      ¬(∀ c ∈ text.toList, Text.isBlank c = true) → Text.Separates text items →
      Collects Denotes items result → Lists text result

inductive Tiles.Lists (text : String) : Except ValueError Tiles → Prop where
  | floor {items : List (List Char)} {contents : List (Option Value)} {tiles : Tiles} :
      Text.Separates text items → Collects Leaves items (.ok contents) →
      (∀ n : Nat, tiles[n]? = contents[n]?) → Lists text (.ok tiles)
  | refused {items : List (List Char)} {error : ValueError} :
      Text.Separates text items → Collects Leaves items (.error error) →
      Lists text (.error error)

theorem Value.parseList_eq_iff {text : String} {result : Except ValueError (List Value)} :
    parseList text = result ↔ Lists text result := by
  unfold parseList
  by_cases hblank : Text.trim text.toList = []
  · have hall := Text.trim_eq_nil_iff.1 hblank
    rw [if_pos (by simp [hblank])]
    constructor
    · rintro rfl
      exact .blank hall
    · intro h
      cases h with
      | blank => rfl
      | items hnot => exact absurd hall hnot
  · have hnot := mt Text.trim_eq_nil_iff.2 hblank
    rw [if_neg (by simpa using hblank), mapM_eq_iff_collects ofChars_eq_ok_iff ofChars_eq_error]
    constructor
    · exact .items hnot (Text.separates_iff.2 rfl)
    · intro h
      cases h with
      | blank hall => exact absurd hall hnot
      | items _ hitems hcollects => rwa [Text.separates_iff.1 hitems]

theorem Tiles.eq_ofItems_iff {tiles : Tiles} {contents : List (Option Value)} :
    ofItems contents = tiles ↔ ∀ n : Nat, tiles[n]? = contents[n]? := by
  constructor
  · rintro rfl
    exact getElem?_ofItems contents
  · intro h
    apply Std.ExtTreeMap.ext_getElem?
    intro n
    rw [h, getElem?_ofItems]

theorem Tiles.parse_eq_iff {text : String} {result : Except ValueError Tiles} :
    parse text = result ↔ Lists text result := by
  have hcollects := mapM_eq_iff_collects parseItem_eq_ok_iff parseItem_eq_error
  unfold parse
  constructor
  · intro h
    cases result with
    | ok tiles =>
      obtain ⟨contents, hcontents, htiles⟩ := map_eq_ok.1 h
      exact .floor (Text.separates_iff.2 rfl) ((hcollects _ _).1 hcontents)
        (eq_ofItems_iff.1 htiles)
    | error error =>
      exact .refused (Text.separates_iff.2 rfl) ((hcollects _ _).1 (map_eq_error.1 h))
  · intro h
    cases h with
    | floor hitems hall htiles =>
      rw [Text.separates_iff.1 hitems, (hcollects _ _).2 hall]
      exact congrArg Except.ok (eq_ofItems_iff.2 htiles)
    | refused hitems herror =>
      rw [Text.separates_iff.1 hitems, (hcollects _ _).2 herror]
      rfl

theorem Collects.ne_notALetter {α : Type} {Stands : List Char → α → Prop}
    {items : List (List Char)} {c : Char} : ¬Collects Stands items (.error (.notALetter c)) :=
  nofun

/-- Both kinds of list accept exactly their grammar: whatever the text, the outcome of
reading it is the one that the grammar gives, with the first bad item as the complaint and
never a complaint about a letter. -/
theorem parse_eq_iff_lists (text : String) :
    (∀ result, Value.parseList text = result ↔ Value.Lists text result) ∧
    (∀ result, Tiles.parse text = result ↔ Tiles.Lists text result) ∧
    ∀ c, Value.parseList text ≠ .error (.notALetter c) ∧
      Tiles.parse text ≠ .error (.notALetter c) := by
  refine ⟨fun _ => Value.parseList_eq_iff, fun _ => Tiles.parse_eq_iff, fun c => ⟨?_, ?_⟩⟩
  · intro h
    cases Value.parseList_eq_iff.1 h with
    | items _ _ hcollects => exact hcollects.ne_notALetter
  · intro h
    cases Tiles.parse_eq_iff.1 h with
    | refused _ hcollects => exact hcollects.ne_notALetter

example : Value.parseList " +07 , z,-9223372036854775808" =
    .ok [.int 7, .letter 'Z', .int (-9223372036854775808)] := by
  decide +kernel

end TileMachine
