import TileMachine.Proofs.Machine.Refinement
import TileMachine.Proofs.Program.Printable
import TileMachine.Proofs.Text.Letters
import TileMachine.Proofs.Text.OneLine
import TileMachine.Proofs.Text.Trimming
import TileMachine.Proofs.Trace.Changes

/-! The lines of a trace. A program whose label names are words, run on valid values,
gives no line a line feed, and no line of the trace can be taken for one of those that
show the inbox and the outbox. -/
namespace TileMachine
open Text

theorem Value.oneLine_text {v : Value} (h : v.Valid) : OneLine v.text := by
  cases v with
  | int n => exact oneLine_ofInt n
  | letter c =>
    apply oneLine_singleton.2
    intro hfeed
    rw [hfeed] at h
    contradiction

theorem Value.oneLine_join {values : List Value} (h : ∀ v ∈ values, v.Valid) :
    OneLine (Value.join values) := by
  apply oneLine_intercalate (by decide)
  intro text htext
  obtain ⟨v, hv, rfl⟩ := List.mem_map.1 htext
  exact oneLine_text (h v hv)

/-! ### Errors -/

def Fault.values : Fault → List Value
  | notAnAddress _ v | cannotAddTo v | cannotAdd v | cannotIncrement v | cannotDecrement v
  | cannotCompare v => [v]
  | cannotSub v held => [v, held]
  | _ => []

theorem Reference.State.Every.values {s : Reference.State} {i : Instruction} {cause : Fault}
    {P : Value → Prop} (hs : s.Every P) (h : s.fault? i = some cause) :
    ∀ v ∈ cause.values, P v := by
  have hhands := hs.hands
  have hcontent (a : Address) (v : Value) (hv : s.content? a = some v) : P v := hs.content hv
  have hempty (a : Address) (ha : s.emptyPointer? a = some cause) : cause.values = [] := by
    cases a <;> grind [emptyPointer?, Fault.values]
  have hbad (a : Address) (ha : s.badPointer? a = some cause) : ∀ v ∈ cause.values, P v := by
    have hfloor := hs.floor
    cases a <;> grind [badPointer?, Fault.values]
  obtain ⟨stage, -, hstage⟩ := List.exists_of_findSome?_eq_some h
  cases stage with
  | hands => grind [violation?, Fault.values]
  | augend => grind [violation?, Fault.values]
  | pointer => grind [violation?]
  | address => grind [violation?]
  | tile => grind [violation?, emptyTarget?, Fault.values]
  | kinds =>
    rw [violation?, badKind?] at hstage
    split at hstage <;> grind [Fault.values]
  | range => grind [violation?, Fault.values]

theorem Fault.oneLine_describe {cause : Fault} (h : ∀ v ∈ cause.values, OneLine v.text) :
    OneLine cause.describe := by
  unfold describe
  cases cause with
  | cannotSub v held =>
    have hv := h v (by simp [values])
    have hheld := h held (by simp [values])
    simp only [oneLine_append, hv, hheld]
    decide
  | notAnAddress _ v | cannotAddTo v | cannotAdd v | cannotIncrement v | cannotDecrement v
  | cannotCompare v =>
    have hv := h v (by simp [values])
    simp only [oneLine_append, oneLine_ofNat, hv]
    decide
  | _ =>
    simp only [oneLine_append, oneLine_ofNat]
    decide

theorem RuntimeError.oneLine_message {error : RuntimeError}
    (h : ∀ index cause, error = .fault index cause → OneLine cause.describe) :
    OneLine error.message := by
  unfold message
  split
  next index =>
    simp only [oneLine_append, oneLine_ofNat, h index _ rfl]
    decide
  next index cause _ =>
    simp only [oneLine_append, oneLine_ofNat, h index cause rfl]
    decide
  next =>
    simp only [oneLine_append, oneLine_ofNat]
    decide

/-! ### Instructions -/

theorem Opcode.oneLine_mnemonic (op : Opcode) : OneLine op.mnemonic := by
  cases op <;> decide

theorem Instruction.oneLine_text {i : Instruction}
    (h : ∀ name target, i.operand = .label name target → OneLine name) : OneLine i.text := by
  have hop := i.opcode.oneLine_mnemonic
  have hspace : OneLine " " := by decide
  unfold text
  split
  next => exact hop
  next address _ =>
    have haddress : OneLine address.text := by
      cases address with
      | direct n => exact oneLine_ofNat n
      | indirect n =>
        simp only [Address.text, oneLine_append, oneLine_ofNat]
        decide
    simp only [oneLine_append, hop, hspace, haddress, and_self]
  next name target hoperand =>
    have hname := h name target hoperand
    simp only [oneLine_append, hop, hspace, hname, and_self]

theorem Instruction.head?_text (i : Instruction) :
    ∃ c, i.text.toList.head? = some c ∧ c.isLower = true := by
  have hmnemonic : ∃ c, i.opcode.mnemonic.toList.head? = some c ∧ c.isLower = true := by
    cases i.opcode <;> exact ⟨_, rfl, by decide⟩
  obtain ⟨c, hc, hlower⟩ := hmnemonic
  refine ⟨c, ?_, hlower⟩
  unfold text
  split <;> simp [hc]

/-! ### Steps -/

namespace Trace

variable {before after : State}

theorem oneLine_show? {item : Option Value} (h : ∀ v, item = some v → v.Valid) :
    OneLine (show? item) := by
  cases item with
  | none => decide
  | some v => exact Value.oneLine_text (h v rfl)

theorem oneLine_of_mem_changes {halted : Bool} {text : String} (hafter : after.view.Valid)
    (h : text ∈ changes before after halted) : OneLine text := by
  have hhands : OneLine (show? after.hands) := oneLine_show? hafter.hands
  simp only [changes, List.mem_append] at h
  rcases h with (((h | h) | h) | h) | h
  · split at h
    · rw [List.mem_singleton.1 h, oneLine_append]
      exact ⟨by decide, hhands⟩
    · contradiction
  · rw [tileChanges_eq_map] at h
    obtain ⟨address, -, rfl⟩ := List.mem_map.1 h
    have hread : OneLine (show? (after.tiles.read address)) :=
      oneLine_show? (hafter.floor address)
    simp only [oneLine_append, oneLine_ofNat, hread]
    decide
  · split at h
    · obtain ⟨v, hv, rfl⟩ := List.mem_map.1 h
      have hout : v ∈ after.outbox.toList :=
        Array.mem_toList_iff.2 (Array.mem_of_back? (Option.mem_toList.1 hv))
      rw [oneLine_append]
      exact ⟨by decide, Value.oneLine_text (hafter.outbox v hout)⟩
    · contradiction
  · split at h
    · rw [List.mem_singleton.1 h, oneLine_append]
      exact ⟨by decide, hhands⟩
    · contradiction
  · split at h
    · rw [List.mem_singleton.1 h, oneLine_append]
      exact ⟨by decide, oneLine_ofNat _⟩
    · contradiction

theorem oneLine_of_mem_remarks {step : Step} {text : String} (hafter : after.view.Valid)
    (herror : ∀ error, step = .failed error → OneLine error.message)
    (h : text ∈ remarks before after step) : OneLine text := by
  cases step with
  | proceed => exact oneLine_of_mem_changes hafter h
  | halted =>
    cases List.mem_append.1 h with
    | inl hchange => exact oneLine_of_mem_changes hafter hchange
    | inr hhalt =>
      rw [List.mem_singleton.1 hhalt]
      decide
  | failed error =>
    rw [List.mem_singleton.1 h, oneLine_append]
    exact ⟨by decide, herror error rfl⟩

theorem oneLine_describe {i : Option Instruction} {step : Step} (hafter : after.view.Valid)
    (herror : ∀ error, step = .failed error → OneLine error.message)
    (hi : ∀ j, i = some j → OneLine j.text) : OneLine (describe i before after step) := by
  have hhead : OneLine ((i.map Instruction.text).getD "(end)") := by
    cases i with
    | none => decide
    | some j => exact hi j rfl
  have hremarks : OneLine (" / ".intercalate (remarks before after step)) :=
    oneLine_intercalate (by decide) fun text => oneLine_of_mem_remarks hafter herror
  unfold describe padRight
  rw [oneLine_ofList]
  intro hfeed
  have hline := (trimEnd_append_trailing _ ▸ List.mem_append_left _ hfeed :)
  simp only [String.toList_append, List.mem_append, String.toList_ofList] at hline
  rcases hline with (hline | hline) | hline
  · exact hhead hline
  · have hspace := List.eq_of_mem_replicate hline
    contradiction
  · exact hremarks hline

theorem head?_describe (i : Option Instruction) (before after : State) (step : Step) :
    ∃ c, (describe i before after step).toList.head? = some c ∧
      (c = '(' ∨ c.isLower = true) := by
  have hhead : ∃ c, ((i.map Instruction.text).getD "(end)").toList.head? = some c ∧
      (c = '(' ∨ c.isLower = true) := by
    cases i with
    | none => exact ⟨'(', by decide, .inl rfl⟩
    | some j =>
      obtain ⟨c, hc, hlower⟩ := j.head?_text
      exact ⟨c, hc, .inr hlower⟩
  obtain ⟨c, hc, hkind⟩ := hhead
  have hblank : isBlank c = false := by
    cases hkind with
    | inl hparen =>
      rw [hparen]
      decide
    | inr hlower => exact isBlank_of_isAlpha (Bool.or_eq_true_iff.2 (.inr hlower))
  refine ⟨c, ?_, hkind⟩
  unfold describe padRight
  rw [String.toList_ofList, String.toList_append, String.toList_append, List.append_assoc]
  exact head?_trimEnd hblank (by rw [List.head?_append, hc, Option.some_or])

end Trace

theorem Execution.head?_traceLine {e : Execution} {c : Char}
    (h : e.traceLine.toList.head? = some c) : c ≠ '<' ∧ c ≠ '>' := by
  obtain ⟨d, hd, hkind⟩ :=
    Trace.head?_describe e.program.instructions[e.state.ip]? e.state e.step.2.state e.step.1
  obtain rfl : d = c := Option.some.inj (hd.symm.trans h)
  clear hd h
  have hlower (mark : Char) (hparen : mark ≠ '(') (hmark : mark.isLower = false) :
      d ≠ mark := by
    rintro rfl
    rw [hmark] at hkind
    exact hkind.elim hparen Bool.noConfusion
  exact ⟨hlower '<' (by decide) (by decide), hlower '>' (by decide) (by decide)⟩

namespace Machine

variable {m : Machine} {origin : Reference.State} {n : Nat} {e : Execution}

theorem Open.oneLine_message (h : m.Open n e) (hvalid : e.state.view.Valid)
    {error : RuntimeError} (herror : e.step.1 = .failed error) : OneLine error.message := by
  have hanswers := h.answers
  generalize e.step = next at hanswers herror
  cases hanswers with
  | ends | stop => contradiction
  | limit =>
    cases herror
    exact RuntimeError.oneLine_message (by simp)
  | fault _ _ hfault =>
    cases herror
    apply RuntimeError.oneLine_message
    rintro _ _ ⟨⟩
    have hvalues := hvalid.values hfault
    exact Fault.oneLine_describe fun v hv => Value.oneLine_text (hvalues v hv)
  | action _ _ hstop =>
    rw [Execution.settle_answer _ hstop] at herror
    split at herror <;> contradiction

theorem Follows.oneLine_traceLine (h : m.Follows origin n e)
    (hopen : e.status.isTerminal = false) (hnames : ∀ name ∈ m.program.labels, OneLine name) :
    OneLine e.traceLine := by
  rcases h.open_or_terminal with hended | ⟨hstep, -⟩
  · rw [hopen] at hended
    contradiction
  · apply Trace.oneLine_describe h.step.valid
    · intro error herror
      exact hstep.oneLine_message h.valid herror
    · intro i hi
      rw [h.program] at hi
      obtain ⟨-, hinstructions⟩ := Program.errors_eq_nil_iff.1 m.valid
      have htargets := (hinstructions i (Array.mem_of_getElem? hi)).2
      apply Instruction.oneLine_text
      intro name target hoperand
      apply hnames
      rw [Std.ExtTreeMap.mem_iff_isSome_getElem?, htargets name target hoperand]
      rfl

end Machine

theorem Program.Printable.oneLine_name {p : Program} (h : p.Printable) {name : String}
    (hname : name ∈ p.labels) : OneLine name := by
  intro hfeed
  have hblank : isBlank '\n' = false := ((h.names name hname).1.2 '\n' hfeed).1
  contradiction

end TileMachine
