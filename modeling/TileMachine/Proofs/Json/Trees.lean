import Mathlib.Data.List.Permutation
import TileMachine.Json.Reader
import TileMachine.Proofs.Json.Spelling

/-! Trees as they are written, and the readers that take them off the front of the tokens
again: whole trees, arrays of equal items, and records with their fields in any order. -/
namespace TileMachine.Json

namespace Tree

mutual
def tokens : Tree → List Token
  | null => [.null]
  | bool b => [.bool b]
  | number n => [.number n]
  | text s => [.text (some s)]
  | array [] => [.leftBracket, .rightBracket]
  | array (item :: items) => .leftBracket :: (item.tokens ++ moreItems items)
  | object [] => [.leftBrace, .rightBrace]
  | object ((key, member) :: members) =>
    .leftBrace :: .text (some key) :: .colon :: (member.tokens ++ moreMembers members)

def moreItems : List Tree → List Token
  | [] => [.rightBracket]
  | item :: items => .comma :: (item.tokens ++ moreItems items)

def moreMembers : List (String × Tree) → List Token
  | [] => [.rightBrace]
  | (key, member) :: members =>
    .comma :: .text (some key) :: .colon :: (member.tokens ++ moreMembers members)
end

def compact (tree : Tree) : String :=
  String.ofList (tree.tokens.flatMap Token.chars)

/-- Nested at most this deep, with integers of 64 bits and strings that need no escapes. -/
inductive Plain : Nat → Tree → Prop where
  | null {depth : Nat} : Plain depth .null
  | bool {depth : Nat} (b : Bool) : Plain depth (.bool b)
  | int {depth : Nat} {n : Int} (hn : Decimal.InRange n) : Plain depth (.number (.int n))
  | text {depth : Nat} {s : String} (hs : ∀ c ∈ s.toList, IsPlain c) : Plain depth (.text s)
  | array {depth : Nat} {items : List Tree} (hitems : ∀ t ∈ items, Plain depth t) :
      Plain (depth + 1) (.array items)
  | object {depth : Nat} {members : List (String × Tree)}
      (hkeys : ∀ m ∈ members, ∀ c ∈ m.1.toList, IsPlain c)
      (hmembers : ∀ m ∈ members, Plain depth m.2) : Plain (depth + 1) (.object members)

theorem exists_tokens (tree : Tree) :
    ∃ t ts, tree.tokens = t :: ts ∧ t ≠ .comma ∧ t ≠ .rightBracket ∧ (t = .null → tree = .null) := by
  cases tree with
  | null | bool b | number n | text s =>
    rw [tokens]
    exact ⟨_, _, rfl, by simp⟩
  | array items =>
    cases items <;> rw [tokens] <;> exact ⟨_, _, rfl, by simp⟩
  | object members =>
    cases members <;> rw [tokens] <;> exact ⟨_, _, rfl, by simp⟩

theorem length_lt_moreItems (items : List Tree) : items.length < (moreItems items).length := by
  induction items with
  | nil => simp [moreItems]
  | cons item items ih =>
    rw [moreItems, List.length_cons, List.length_cons, List.length_append]
    omega

theorem length_lt_moreMembers (members : List (String × Tree)) :
    members.length < (moreMembers members).length := by
  induction members with
  | nil => simp [moreMembers]
  | cons member members ih =>
    obtain ⟨key, tree⟩ := member
    simp only [moreMembers, List.length_cons, List.length_append]
    omega

end Tree

def Reads {α : Type} (read : Reader α) (tree : Tree) (a : α) : Prop :=
  ∀ rest, read (tree.tokens ++ rest) = .ok (a, rest)

theorem Reads.map {α β : Type} {read : Reader α} {tree : Tree} {a : α} (h : Reads read tree a)
    (f : α → β) :
    Reads (fun tokens => do
      let (a, rest) ← read tokens
      return (f a, rest)) tree (f a) := by
  intro rest
  dsimp only
  rw [h]
  rfl

/-! ### Whole trees -/

section
variable {care : Care}

theorem readItems_tokens {item : Tree} {items : List Tree}
    (h : ∀ t ∈ item :: items, ∀ bound, 2 * t.tokens.length ≤ bound + 1 →
      Reads (readTree bound care) t t)
    {bound : Nat} (hbound : 2 * (item.tokens.length + (Tree.moreItems items).length) ≤ bound)
    (before : List Tree) (rest : List Token) :
    readItems bound care before (item.tokens ++ (Tree.moreItems items ++ rest)) =
      .ok (.array (before.reverse ++ item :: items), rest) := by
  induction items generalizing item before bound with
  | nil =>
    cases bound with
    | zero => simp [Tree.moreItems] at hbound
    | succ bound =>
      have hitem := h item List.mem_cons_self bound (by omega)
      rw [readItems, hitem]
      simp [Tree.moreItems]
      rfl
  | cons next items ih =>
    cases bound with
    | zero => simp [Tree.moreItems] at hbound
    | succ bound =>
      have hitem := h item List.mem_cons_self bound (by omega)
      rw [Tree.moreItems, List.length_cons, List.length_append] at hbound
      have hfits : 2 * (next.tokens.length + (Tree.moreItems items).length) ≤ bound := by omega
      have hmore := ih (fun t ht => h t (List.mem_cons_of_mem _ ht)) hfits (item :: before)
      rw [readItems, hitem, Tree.moreItems, List.cons_append, List.append_assoc]
      change readItems bound care (item :: before) _ = _
      rw [hmore, List.reverse_cons, List.append_assoc, List.singleton_append]

theorem readMembers_tokens {key : String} {member : Tree} {members : List (String × Tree)}
    (h : ∀ m ∈ (key, member) :: members, ∀ bound, 2 * m.2.tokens.length ≤ bound + 1 →
      Reads (readTree bound care) m.2 m.2)
    {bound : Nat} (hbound : 2 * (member.tokens.length + (Tree.moreMembers members).length) ≤ bound)
    (before : List (String × Tree)) (rest : List Token) :
    readMembers bound care before
        (.text (some key) :: .colon :: (member.tokens ++ (Tree.moreMembers members ++ rest))) =
      .ok (.object (before.reverse ++ (key, member) :: members), rest) := by
  induction members generalizing key member before bound with
  | nil =>
    cases bound with
    | zero => simp [Tree.moreMembers] at hbound
    | succ bound =>
      have hmember := h (key, member) List.mem_cons_self bound (by dsimp only; omega)
      dsimp only at hmember
      rw [readMembers]
      simp only [Care.text]
      change (readTree bound care _ >>= _) = _
      rw [hmember]
      simp [Tree.moreMembers]
      rfl
  | cons next members ih =>
    obtain ⟨nextKey, next⟩ := next
    cases bound with
    | zero => simp [Tree.moreMembers] at hbound
    | succ bound =>
      have hmember := h (key, member) List.mem_cons_self bound (by dsimp only; omega)
      simp only [Tree.moreMembers, List.length_cons, List.length_append] at hbound
      have hfits : 2 * (next.tokens.length + (Tree.moreMembers members).length) ≤ bound := by omega
      have hmore := ih (fun m hm => h m (List.mem_cons_of_mem _ hm)) hfits ((key, member) :: before)
      dsimp only at hmember
      rw [readMembers]
      simp only [Care.text]
      change (readTree bound care _ >>= _) = _
      rw [hmember, Tree.moreMembers, List.cons_append, List.cons_append, List.cons_append, List.append_assoc]
      change readMembers bound care ((key, member) :: before) _ = _
      rw [hmore, List.reverse_cons, List.append_assoc, List.singleton_append]

end

theorem readTree_leftBracket {tokens : List Token} (h : ∀ ts, tokens ≠ .rightBracket :: ts)
    (bound depth : Nat) : readTree (bound + 1) (.keep (depth + 1)) (.leftBracket :: tokens) =
      readItems bound (.keep depth) [] tokens := by
  rw [readTree]
  simp only [Care.enter, bind, Except.bind]

/-- Every token is taken in at most two calls, so there are enough of them. -/
theorem reads_readTree {depth : Nat} {tree : Tree} (h : tree.Plain depth) {bound : Nat}
    (hbound : 2 * tree.tokens.length ≤ bound + 1) :
    Reads (readTree bound (.keep depth)) tree tree := by
  intro rest
  induction h generalizing bound rest with
  | null | bool b | int hn | text hs =>
    cases bound with
    | zero => simp [Tree.tokens] at hbound
    | succ bound => rfl
  | @array depth items hitems ih =>
    cases items with
    | nil =>
      cases bound with
      | zero => simp [Tree.tokens] at hbound
      | succ bound => rfl
    | cons item items =>
      obtain ⟨t, ts, hitem, -, hbracket, -⟩ := item.exists_tokens
      rw [Tree.tokens, List.length_cons, List.length_append] at hbound
      obtain ⟨bound, rfl⟩ : ∃ b, bound = b + 1 := ⟨bound - 1, by omega⟩
      have hfirst (ts : List Token) :
          item.tokens ++ (Tree.moreItems items ++ rest) ≠ .rightBracket :: ts := by
        rw [hitem]
        simp [hbracket]
      rw [Tree.tokens, List.cons_append, List.append_assoc, readTree_leftBracket hfirst,
        readItems_tokens (fun t ht bound hbound rest => ih t ht hbound rest) (by omega),
        List.reverse_nil, List.nil_append]
  | @object depth members hkeys hmembers ih =>
    cases members with
    | nil =>
      cases bound with
      | zero => simp [Tree.tokens] at hbound
      | succ bound => rfl
    | cons member members =>
      obtain ⟨key, member⟩ := member
      simp only [Tree.tokens, List.length_cons, List.length_append] at hbound
      obtain ⟨bound, rfl⟩ : ∃ b, bound = b + 1 := ⟨bound - 1, by omega⟩
      rw [Tree.tokens, List.cons_append, List.cons_append, List.cons_append, List.append_assoc]
      change readMembers bound (.keep depth) [] _ = _
      rw [readMembers_tokens (fun m hm bound hbound rest => ih m hm hbound rest) (by omega),
        List.reverse_nil, List.nil_append]

theorem length_le_callBound (tree : Tree) (rest : List Token) :
    2 * tree.tokens.length ≤ callBound (tree.tokens ++ rest) + 1 := by
  cases tree with
  | null | bool b | number n | text s => simp [Tree.tokens, callBound]
  | array items =>
    cases items <;> simp only [Tree.tokens, List.cons_append, callBound, List.length_cons,
      List.length_append] <;> omega
  | object members =>
    cases members <;> simp only [Tree.tokens, List.cons_append, callBound, List.length_cons,
      List.length_append] <;> omega

theorem reads_read {depth : Nat} {tree : Tree} (h : tree.Plain depth) :
    Reads (read (.keep depth)) tree tree :=
  fun rest => reads_readTree h (length_le_callBound tree rest) rest

/-! ### Arrays and records -/

variable {α σ : Type}

theorem nextItem?_tokens (tree : Tree) (rest : List Token) :
    nextItem? true (tree.tokens ++ rest) = .ok (some (tree.tokens ++ rest)) ∧
      nextItem? false (.comma :: (tree.tokens ++ rest)) = .ok (some (tree.tokens ++ rest)) := by
  obtain ⟨t, ts, htree, hcomma, hbracket, -⟩ := tree.exists_tokens
  rw [htree, List.cons_append]
  constructor
  · cases t <;> first | rfl | contradiction
  · cases t <;> first | rfl | contradiction

theorem readAll_moreItems {item : Reader α} {items : List Tree} {as : List α}
    (h : List.Forall₂ (Reads item) items as) {bound : Nat} (hbound : items.length < bound)
    {before : List α} (hbefore : before ≠ []) (rest : List Token) :
    readAll item bound before (Tree.moreItems items ++ rest) = .ok (before.reverse ++ as, rest) := by
  have hempty : before.isEmpty = false := by simpa using hbefore
  induction h generalizing bound before with
  | nil =>
    obtain ⟨bound, rfl⟩ : ∃ b, bound = b + 1 := ⟨bound - 1, by omega⟩
    rw [readAll, hempty, List.append_nil]
    rfl
  | @cons tree a items as hfirst _ ih =>
    obtain ⟨bound, rfl⟩ : ∃ b, bound = b + 1 := ⟨bound - 1, by omega⟩
    rw [List.length_cons] at hbound
    rw [readAll, hempty, Tree.moreItems, List.cons_append, List.append_assoc,
      (nextItem?_tokens tree _).2]
    change (item _ >>= _) = _
    rw [hfirst]
    change readAll item bound (a :: before) _ = _
    rw [ih (by omega) (by simp) rfl, List.reverse_cons, List.append_assoc, List.singleton_append]

theorem reads_readArray {item : Nat → Reader α} {depth : Nat} {items : List Tree} {as : List α}
    (h : List.Forall₂ (Reads (item depth)) items as) :
    Reads (readArray (depth + 1) item) (.array items) as := by
  intro rest
  cases h with
  | nil => rfl
  | @cons tree a items as hfirst hmore =>
    have hlength := Tree.length_lt_moreItems items
    rw [Tree.tokens, List.cons_append, List.append_assoc]
    change readAll (item depth) _ [] _ = _
    rw [readAll, List.isEmpty_nil, (nextItem?_tokens tree _).1]
    change (item depth _ >>= _) = _
    rw [hfirst]
    change readAll (item depth) _ [a] _ = _
    rw [readAll_moreItems hmore _ (by simp)]
    · rfl
    · simp only [List.length_cons, List.length_append]
      omega

theorem reads_readNullable {read : Reader α} {tree : Tree} {a : α} (h : Reads read tree a)
    (hnull : tree ≠ .null) : Reads (readNullable read) tree (some a) := by
  intro rest
  have hread := h rest
  obtain ⟨t, ts, htree, -, -, ht⟩ := tree.exists_tokens
  rw [htree, List.cons_append] at hread ⊢
  rw [readNullable.eq_2 _ _ fun _ heq => hnull (ht (List.cons.inj heq).1), hread]
  rfl

namespace Shape

/-- Reading the members one after the other takes the record from one state to the other. -/
inductive Fills (shape : Shape σ α) (depth : Nat) : σ → List (String × Tree) → σ → Prop where
  | done (seen : σ) : Fills shape depth seen [] seen
  | field {seen next final : σ} {field : Field σ} {key : String} {tree : Tree}
      {members : List (String × Tree)}
      (hfield : shape.fields.find? (·.name == key) = some field)
      (hpresent : field.present seen = false) (hread : Reads (field.add depth seen) tree next)
      (hmore : Fills shape depth next members final) :
      Fills shape depth seen ((key, tree) :: members) final

variable {shape : Shape σ α} {depth : Nat}

theorem readFields_field {seen next : σ} {field : Field σ} {key : String} {tree : Tree}
    {tokens rest : List Token} {first : Bool}
    (hkey : nextKey? first tokens = .ok (some (key, .colon :: (tree.tokens ++ rest))))
    (hfield : shape.fields.find? (·.name == key) = some field)
    (hpresent : field.present seen = false) (hread : Reads (field.add depth seen) tree next)
    (bound : Nat) : shape.readFields depth (bound + 1) first seen tokens =
      shape.readFields depth bound false next rest := by
  rw [readFields, hkey]
  simp only [bind, Except.bind, hfield, hpresent, Bool.false_eq_true, if_false]
  change (field.add depth seen (tree.tokens ++ rest) >>= fun v =>
    shape.readFields depth bound false v.1 v.2) = _
  rw [hread]
  rfl

theorem readFields_moreMembers {seen final : σ} {members : List (String × Tree)}
    (h : Fills shape depth seen members final) {bound : Nat} (hbound : members.length < bound)
    (rest : List Token) :
    shape.readFields depth bound false seen (Tree.moreMembers members ++ rest) = .ok (final, rest) := by
  induction h generalizing bound with
  | done seen =>
    obtain ⟨bound, rfl⟩ : ∃ b, bound = b + 1 := ⟨bound - 1, by omega⟩
    rfl
  | field hfield hpresent hread _ ih =>
    rw [List.length_cons] at hbound
    obtain ⟨bound, rfl⟩ : ∃ b, bound = b + 1 := ⟨bound - 1, by omega⟩
    rw [Tree.moreMembers, List.cons_append, List.cons_append, List.cons_append, List.append_assoc,
      readFields_field rfl hfield hpresent hread, ih (by omega)]

theorem reads_read {members : List (String × Tree)} {seen : σ} {a : α}
    (h : Fills shape depth shape.empty members seen) (hclose : shape.close seen = .ok a) :
    Reads (shape.read (depth + 1)) (.object members) a := by
  intro rest
  obtain ⟨ts, htokens⟩ : ∃ ts, (Tree.object members).tokens = .leftBrace :: ts := by
    cases members <;> rw [Tree.tokens] <;> exact ⟨_, rfl⟩
  have hfields : shape.readFields depth ((.leftBrace :: (ts ++ rest)).length + 1) true
      shape.empty (ts ++ rest) = .ok (seen, rest) := by
    cases h with
    | done =>
      cases htokens
      rfl
    | @field _ next _ field key tree members hfield hpresent hread hmore =>
      have hlength := Tree.length_lt_moreMembers members
      rw [Tree.tokens] at htokens
      cases htokens
      rw [List.cons_append, List.cons_append, List.append_assoc,
        readFields_field rfl hfield hpresent hread, readFields_moreMembers hmore]
      simp only [List.length_cons, List.length_append]
      omega
  rw [htokens, List.cons_append]
  change (shape.readFields depth _ true shape.empty _ >>= _) = _
  rw [hfields]
  simp only [bind, Except.bind, hclose]
  rfl

theorem reads_read_pair {members : List (String × Tree)} {key key' : String} {tree tree' : Tree}
    {field field' : Field σ} {add add' : σ → σ} {a : α}
    (hmembers : members.Perm [(key, tree), (key', tree')])
    (hfield : shape.fields.find? (·.name == key) = some field)
    (hfield' : shape.fields.find? (·.name == key') = some field')
    (hread : ∀ seen, Reads (field.add depth seen) tree (add seen))
    (hread' : ∀ seen, Reads (field'.add depth seen) tree' (add' seen))
    (hpresent : field.present shape.empty = false ∧ field'.present (add shape.empty) = false)
    (hpresent' : field'.present shape.empty = false ∧ field.present (add' shape.empty) = false)
    (hclose : shape.close (add' (add shape.empty)) = .ok a)
    (hclose' : shape.close (add (add' shape.empty)) = .ok a) :
    Reads (shape.read (depth + 1)) (.object members) a := by
  rcases List.perm_pair.1 hmembers with rfl | rfl
  · refine reads_read (.field hfield hpresent.1 (hread _) ?_) hclose
    exact .field hfield' hpresent.2 (hread' _) (.done _)
  · refine reads_read (.field hfield' hpresent'.1 (hread' _) ?_) hclose'
    exact .field hfield hpresent'.2 (hread _) (.done _)

end Shape

/-! ### Whole texts -/

theorem parse_of_spells {read : Nat → Reader α} {tree : Tree} {a : α}
    (h : Reads (read maxDepth) tree a) {json : String} (hjson : Spells tree.tokens json.toList) :
    parse read json = .ok a := by
  have hread := h []
  rw [List.append_nil] at hread
  unfold parse
  rw [lex_of_spells hjson, hread]
  rfl

theorem Spells.next {t : Token} {tokens : List Token} {rest : List Char} (hplain : t.Plain)
    (hends : t.IsNumber → EndsNumber rest) (h : Spells tokens rest) :
    Spells (t :: tokens) (t.chars ++ rest) :=
  @Spells.token t tokens [] rest (by simp) hplain hends h

theorem endsNumber_cons {c : Char} (h : c.isDigit = false ∧ c ≠ '.' ∧ c ≠ 'e' ∧ c ≠ 'E')
    (rest : List Char) : EndsNumber (c :: rest) := by
  rintro _ ⟨⟩
  exact h

/-- Can be written before any text that does not go on with a number. -/
def Writable (tree : Tree) : Prop :=
  ∀ {tokens rest}, Spells tokens rest → EndsNumber rest →
    Spells (tree.tokens ++ tokens) (tree.tokens.flatMap Token.chars ++ rest)

variable {tokens : List Token} {rest : List Char}

theorem spells_moreItems {items : List Tree} (h : ∀ t ∈ items, Writable t)
    (hrest : Spells tokens rest) :
    Spells (Tree.moreItems items ++ tokens) ((Tree.moreItems items).flatMap Token.chars ++ rest) ∧
      EndsNumber ((Tree.moreItems items).flatMap Token.chars ++ rest) := by
  induction items with
  | nil => exact ⟨.next trivial False.elim hrest, endsNumber_cons (by decide) _⟩
  | cons item items ih =>
    rw [List.forall_mem_cons] at h
    obtain ⟨hmore, hends⟩ := ih h.2
    have hitem := h.1 hmore hends
    simp only [Tree.moreItems, List.flatMap_cons, List.flatMap_append, List.cons_append,
      List.append_assoc]
    exact ⟨.next trivial False.elim hitem, endsNumber_cons (by decide) _⟩

theorem spells_member {key : String} {tree : Tree} (hkey : ∀ c ∈ key.toList, IsPlain c)
    (h : Writable tree) (hrest : Spells tokens rest) (hends : EndsNumber rest) :
    Spells (.text (some key) :: .colon :: (tree.tokens ++ tokens))
      (Token.chars (.text (some key)) ++ (Token.chars .colon ++
        (tree.tokens.flatMap Token.chars ++ rest))) :=
  .next hkey False.elim (.next trivial False.elim (h hrest hends))

theorem spells_moreMembers {members : List (String × Tree)}
    (hkeys : ∀ m ∈ members, ∀ c ∈ m.1.toList, IsPlain c) (h : ∀ m ∈ members, Writable m.2)
    (hrest : Spells tokens rest) :
    Spells (Tree.moreMembers members ++ tokens)
        ((Tree.moreMembers members).flatMap Token.chars ++ rest) ∧
      EndsNumber ((Tree.moreMembers members).flatMap Token.chars ++ rest) := by
  induction members with
  | nil => exact ⟨.next trivial False.elim hrest, endsNumber_cons (by decide) _⟩
  | cons member members ih =>
    obtain ⟨key, tree⟩ := member
    rw [List.forall_mem_cons] at h hkeys
    obtain ⟨hmore, hends⟩ := ih hkeys.2 h.2
    have hmember := spells_member hkeys.1 h.1 hmore hends
    simp only [Tree.moreMembers, List.flatMap_cons, List.flatMap_append, List.cons_append,
      List.append_assoc]
    exact ⟨.next trivial False.elim hmember, endsNumber_cons (by decide) _⟩

/-- Behind a number comes a mark or the end, so no blanks are needed. -/
theorem writable_of_plain {depth : Nat} {tree : Tree} (h : tree.Plain depth) : Writable tree := by
  intro tokens rest hrest hends
  induction h generalizing tokens rest with
  | null | bool b =>
    rw [Tree.tokens, List.flatMap_singleton]
    exact .next trivial False.elim hrest
  | int hn =>
    rw [Tree.tokens, List.flatMap_singleton]
    exact .next hn (fun _ => hends) hrest
  | text hs =>
    rw [Tree.tokens, List.flatMap_singleton]
    exact .next hs False.elim hrest
  | @array depth items hitems ih =>
    cases items with
    | nil => exact .next trivial False.elim (.next trivial False.elim hrest)
    | cons item items =>
      rw [List.forall_mem_cons] at ih
      obtain ⟨hmore, hmoreEnds⟩ := spells_moreItems (fun t ht => ih.2 t ht) hrest
      have hitem := ih.1 hmore hmoreEnds
      simp only [Tree.tokens, List.flatMap_cons, List.flatMap_append, List.cons_append,
        List.append_assoc]
      exact .next trivial False.elim hitem
  | @object depth members hkeys hmembers ih =>
    cases members with
    | nil => exact .next trivial False.elim (.next trivial False.elim hrest)
    | cons member members =>
      obtain ⟨key, tree⟩ := member
      rw [List.forall_mem_cons] at ih hkeys
      obtain ⟨hmore, hmoreEnds⟩ := spells_moreMembers hkeys.2 (fun m hm => ih.2 m hm) hrest
      have hmember := spells_member hkeys.1 ih.1 hmore hmoreEnds
      simp only [Tree.tokens, List.flatMap_cons, List.flatMap_append, List.cons_append,
        List.append_assoc]
      exact .next trivial False.elim hmember

theorem spells_compact {depth : Nat} {tree : Tree} (h : tree.Plain depth) :
    Spells tree.tokens tree.compact.toList := by
  have hend : Spells [] [] := .blanks (by simp)
  have hspells := writable_of_plain h hend (by simp [EndsNumber])
  rw [List.append_nil, List.append_nil] at hspells
  unfold Tree.compact
  rwa [String.toList_ofList]

end TileMachine.Json
