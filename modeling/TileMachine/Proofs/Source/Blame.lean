import TileMachine.Proofs.Source.AnyTokens

/-! Every complaint about a text blames significant tokens of one of its lines: a single
one that the complaint names, or those of an address in brackets up to the first closing
one. A jump to an unknown label is found out only behind the last line; its operation
still knows the token. -/
namespace TileMachine

def ParseError.Cause.IsAbout (t : Token) : Cause → Prop
  | unknownOpcode text | unexpectedToken text | expectedAddress _ text | expectedLabel _ text
  | invalidInteger text | invalidAddress text | undefinedLabel text => text = t.text
  | missingArgument opcode expected =>
    Opcode.ofMnemonic? t.text = some opcode ∧ expected = opcode.operandKind
  | duplicateLabel name | invalidLabel name => t.kind = .labelDef ∧ name = t.labelName?.getD ""
  | malformedIndirect _ => False

/-- The complaint is about one of the tokens, or about an address in brackets. -/
inductive ParseError.Blames (tokens : List Token) : ParseError → Prop where
  | token {t : Token} {cause : Cause} (ht : t ∈ tokens) (hcause : cause.IsAbout t) :
      Blames tokens (t.fail cause)
  | indirect {first : Token} {rest : List Token} (hsuffix : first :: rest <:+ tokens) :
      Blames tokens (Statement.malformedIndirect first rest)

theorem ParseError.line_of_blames {tokens : List Token} {e : ParseError} {line : Nat}
    (h : e.Blames tokens) (hline : ∀ t ∈ tokens, t.line = line) : e.line = line := by
  cases h with
  | token ht => exact hline _ ht
  | indirect hsuffix => exact hline _ (hsuffix.subset List.mem_cons_self)

namespace Statement
open ParseError

variable {opcode : Opcode} {first mnemonic : Token} {rest args tokens : List Token} {e : ParseError}

theorem blames_cons (t : Token) (h : Blames tokens e) : Blames (t :: tokens) e := by
  cases h with
  | token ht hcause => exact .token (List.mem_cons_of_mem t ht) hcause
  | indirect hsuffix => exact .indirect (hsuffix.trans (List.suffix_cons t tokens))

theorem blames_of_noMore {α : Type} {a : α} (h : (do noMore rest; return a) = .error e) :
    Blames rest e := by
  cases rest with
  | nil => cases h
  | cons t rest =>
    cases h
    exact .token List.mem_cons_self rfl

theorem blames_of_readAddress {t : Token} (ht : t ∈ tokens) (h : readAddress t = .error e) :
    Blames tokens e := by
  unfold readAddress at h
  split at h
  next =>
    cases h
    exact .token ht rfl
  next =>
    split at h
    next =>
      split at h
      next => cases h
      next =>
        cases h
        exact .token ht rfl
    next =>
      cases h
      exact .token ht rfl

theorem blames_of_readTile (h : readTile opcode first rest = .error e) :
    Blames (first :: rest) e := by
  unfold readTile at h
  split at h
  next =>
    rcases bind_eq_error.1 h with haddress | ⟨n, -, hmore⟩
    · exact blames_of_readAddress List.mem_cons_self haddress
    · exact blames_cons first (blames_of_noMore hmore)
  next inner close more _ =>
    split at h
    next =>
      rcases bind_eq_error.1 h with haddress | ⟨n, -, hmore⟩
      · exact blames_of_readAddress (List.mem_cons_of_mem _ List.mem_cons_self) haddress
      · exact blames_cons first (blames_cons inner (blames_cons close (blames_of_noMore hmore)))
    next =>
      cases h
      exact .indirect (List.suffix_refl _)
  next =>
    cases h
    exact .indirect (List.suffix_refl _)
  next =>
    cases h
    exact .indirect (List.suffix_refl _)
  next =>
    cases h
    exact .token List.mem_cons_self rfl

theorem blames_of_readLabel (h : readLabel opcode first rest = .error e) :
    Blames (first :: rest) e := by
  unfold readLabel at h
  split at h
  next => exact blames_cons first (blames_of_noMore h)
  next => exact blames_cons first (blames_of_noMore h)
  next =>
    cases h
    exact .token List.mem_cons_self rfl

theorem blames_of_readArgument (hmnemonic : Opcode.ofMnemonic? mnemonic.text = some opcode)
    (h : readArgument opcode mnemonic args = .error e) : Blames (mnemonic :: args) e := by
  unfold readArgument at h
  split at h
  next => exact blames_cons mnemonic (blames_of_noMore h)
  next =>
    cases h
    exact .token List.mem_cons_self ⟨hmnemonic, rfl⟩
  next => exact blames_cons mnemonic (blames_of_readTile h)
  next => exact blames_cons mnemonic (blames_of_readLabel h)

theorem blames_of_ofTokens (h : ofTokens tokens = .error e) :
    Blames (tokens.filter Token.isSignificant) e := by
  unfold ofTokens at h
  split at h
  next => cases h
  next first args hfirst =>
    rw [hfirst]
    split at h
    next hkind =>
      rw [map_eq_error] at h
      unfold readDeclaration at h
      dsimp only at h
      split at h
      next => exact blames_cons first (blames_of_noMore h)
      next =>
        cases h
        exact .token List.mem_cons_self ⟨hkind, rfl⟩
    next =>
      rw [map_eq_error] at h
      unfold readOperation at h
      split at h
      next =>
        cases h
        exact .token List.mem_cons_self rfl
      next opcode hopcode =>
        rcases bind_eq_error.1 h with hargument | ⟨argument, -, hpure⟩
        · exact blames_of_readArgument hopcode hargument
        · cases hpure
    next =>
      cases h
      exact .token List.mem_cons_self rfl

theorem exists_label_of_readArgument {name : String} {span : Span}
    (h : readArgument opcode mnemonic args = .ok (.label name span)) :
    ∃ t ∈ args, t.text = name ∧ t.span = span := by
  have hargues := argues_of_readArgument h
  generalize opcode.operandKind = kind at hargues
  cases hargues
  exact ⟨_, List.mem_singleton_self _, rfl, rfl⟩

end Statement

namespace Draft
open ParseError

variable {d d' : Draft} {e : ParseError} {groups : List (List Token)}

theorem blames_of_addLine {tokens : List Token} (h : d.addLine tokens = .error e) :
    Blames (tokens.filter Token.isSignificant) e := by
  unfold addLine at h
  rcases bind_eq_error.1 h with hread | ⟨s, hs, hadd⟩
  · exact Statement.blames_of_ofTokens hread
  · cases s with
    | none => cases hadd
    | some s =>
      obtain ⟨first, args, hfirst, ⟨hkind, -, rfl⟩ | ⟨-, _, _, -, -, rfl⟩⟩ :=
        Statement.ofTokens_eq_some hs
      · unfold add at hadd
        dsimp only at hadd
        split at hadd
        next =>
          cases hadd
          rw [hfirst]
          exact .token List.mem_cons_self ⟨hkind, rfl⟩
        next => cases hadd
      · cases hadd

def Cites (groups : List (List Token)) (d : Draft) : Prop :=
  ∀ op ∈ d.operations, ∀ name span, op.argument = .label name span →
    ∃ group ∈ groups, ∃ t ∈ group.filter Token.isSignificant,
      t.text = name ∧ t.span = span ∧ t.line = op.line

theorem cites_addLine (hd : Cites groups d) {group : List Token} (hgroup : group ∈ groups)
    (hline : ∃ n, ∀ t ∈ group, t.line = n) (h : d.addLine group = .ok d') : Cites groups d' := by
  unfold addLine at h
  obtain ⟨s, hs, hadd⟩ := bind_eq_ok.1 h
  cases s with
  | none =>
    cases hadd
    exact hd
  | some s =>
    obtain ⟨first, args, hfirst, ⟨-, -, rfl⟩ | ⟨-, opcode, argument, -, hargument, rfl⟩⟩ :=
      Statement.ofTokens_eq_some hs
    · unfold add at hadd
      dsimp only at hadd
      split at hadd
      next => cases hadd
      next =>
        cases hadd
        exact hd
    · cases hadd
      intro op hop name span hlabel
      rcases Array.mem_push.1 hop with hold | rfl
      · exact hd op hold name span hlabel
      · dsimp only at hlabel ⊢
        rw [hlabel] at hargument
        obtain ⟨t, ht, htext, hspan⟩ := Statement.exists_label_of_readArgument hargument
        obtain ⟨n, hn⟩ := hline
        have hmem (u : Token) (hu : u ∈ first :: args) : u ∈ group :=
          List.mem_of_mem_filter (hfirst ▸ hu : u ∈ group.filter _)
        refine ⟨group, hgroup, t, hfirst ▸ List.mem_cons_of_mem _ ht, htext, hspan, ?_⟩
        rw [hn t (hmem t (List.mem_cons_of_mem _ ht)), hn first (hmem first List.mem_cons_self)]

theorem blames_of_finish (hd : Cites groups d) (h : d.finish = .error e) :
    ∃ group ∈ groups, Blames (group.filter Token.isSignificant) e := by
  unfold finish at h
  rcases bind_eq_error.1 h with hresolve | ⟨_, -, hpure⟩
  · rw [Array.mapM_eq_mapM_toList, map_eq_error] at hresolve
    obtain ⟨op, hop, herror⟩ := mapM_eq_error hresolve
    unfold Operation.resolve at herror
    split at herror
    next => cases herror
    next => cases herror
    next name span hlabel =>
      split at herror
      next => cases herror
      next =>
        cases herror
        obtain ⟨group, hgroup, t, ht, rfl, rfl, hline⟩ :=
          hd op (Array.mem_toList_iff.1 hop) _ _ hlabel
        rw [← hline]
        exact ⟨group, hgroup, .token ht rfl⟩
  · cases hpure

end Draft

theorem Program.blames_of_parse {source : String} {e : ParseError}
    (h : Program.parse source = .error e) :
    ∃ group ∈ Lexer.lineTokens false 1 (Text.lines source.toList),
      e.Blames (group.filter Token.isSignificant) := by
  rw [Program.parse_eq] at h
  rcases bind_eq_error.1 h with hread | ⟨d, hd, hfinish⟩
  · obtain ⟨group, hgroup, d, hadd⟩ := foldlM_eq_error hread
    exact ⟨group, hgroup, Draft.blames_of_addLine hadd⟩
  · refine Draft.blames_of_finish (foldlM_keeps ?_ ?_ hd) hfinish
    · exact fun group hgroup _ _ hcites =>
        Draft.cites_addLine hcites hgroup (Lexer.line_eq_of_mem_lineTokens hgroup)
    · intro op hop
      cases hop
      contradiction

end TileMachine
