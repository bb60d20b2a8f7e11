import TileMachine.Command
import TileMachine.Proofs.Source.Indexing

/-! How the commands can end. A program that was read from a text has no problems left for
the checks to find, so no command ever ends with an invalid program. -/
namespace TileMachine
namespace Command

variable {files : Files} {path : String} {α β : Type}

def endings : Command → List Ending
  | .run .. => [.success, .badInput, .runtimeError]
  | .check _ | .format _ => [.success, .badInput]
  | .test .. => [.success, .badInput, .mismatch]

/-- All that can go wrong is the fault of the input, and nothing is printed then. -/
def BlamesInput (x : Except Report α) : Prop :=
  ∀ report, x = .error report → ∃ complaint, report = .refuse .badInput complaint

def EndsIn (ways : List Ending) (x : Except Report (Option Report)) : Prop :=
  ∀ report, respond?.early x = some report → report.ending ∈ ways

theorem endsIn_bind {ways : List Ending} {x : Except Report α}
    {f : α → Except Report (Option Report)} (hways : .badInput ∈ ways) (hx : BlamesInput x)
    (hf : ∀ a, x = .ok a → EndsIn ways (f a)) : EndsIn ways (x >>= f) := by
  intro report h
  cases hresult : x with
  | error refusal =>
    rw [hresult] at h
    cases h
    obtain ⟨complaint, rfl⟩ := hx report hresult
    exact hways
  | ok a =>
    rw [hresult] at h
    exact hf a hresult report h

/-! ### What is loaded -/

theorem blamesInput_bind {x : Except Report α} {f : α → Except Report β}
    (hx : BlamesInput x) (hf : ∀ a, x = .ok a → BlamesInput (f a)) : BlamesInput (x >>= f) := by
  intro report h
  cases hresult : x with
  | error refusal =>
    rw [hresult] at h
    cases h
    exact hx report hresult
  | ok a =>
    rw [hresult] at h
    exact hf a hresult report h

theorem blamesInput_readText : BlamesInput (readText files path) := by
  intro report h
  unfold readText at h
  split at h
  next =>
    cases h
    exact ⟨_, rfl⟩
  next =>
    split at h
    next => cases h
    next =>
      cases h
      exact ⟨_, rfl⟩

theorem blamesInput_loadProgram : BlamesInput (loadProgram files path) := by
  apply blamesInput_bind blamesInput_readText
  intro source _ report h
  split at h
  next => cases h
  next =>
    cases h
    exact ⟨_, rfl⟩

theorem parse_of_loadProgram {source : String} {p : Program}
    (h : loadProgram files path = .ok (source, p)) : Program.parse source = .ok p := by
  unfold loadProgram at h
  have ⟨text, _, h⟩ := bind_eq_ok.1 h
  cases hparse : Program.parse text with
  | error error =>
    rw [hparse] at h
    cases h
  | ok program =>
    rw [hparse] at h
    cases h
    exact hparse

theorem readText_toUTF8 {text : String}
    (h : files path = .ok text.toUTF8) : readText files path = .ok text := by
  unfold readText
  rw [h]
  have htext : String.fromUTF8? text.toUTF8 = some text := dif_pos text.isValidUTF8
  dsimp only
  rw [htext]

theorem loadProgram_toUTF8 {text : String} {p : Program} (hfile : files path = .ok text.toUTF8)
    (hparse : Program.parse text = .ok p) : loadProgram files path = .ok (text, p) := by
  unfold loadProgram
  rw [readText_toUTF8 hfile]
  dsimp only [bind, Except.bind]
  rw [hparse]
  rfl

theorem blamesInput_mapError {ε : Type} {x : Except ε α} {complain : ε → Complaint} :
    BlamesInput (x.mapError fun error => .refuse .badInput (complain error)) := by
  intro report h
  cases x with
  | error error =>
    cases h
    exact ⟨_, rfl⟩
  | ok a => cases h

theorem blamesInput_loadInbox {text : Option String} : BlamesInput (loadInbox text) :=
  blamesInput_mapError

theorem blamesInput_loadTiles {text : Option String} : BlamesInput (loadTiles text) := by
  cases text with
  | none =>
    intro report h
    cases h
  | some text => exact blamesInput_mapError

theorem blamesInput_loadFixture : BlamesInput (loadFixture files path) :=
  blamesInput_bind blamesInput_readText fun _ _ => blamesInput_mapError

/-- The checks find nothing in a program that was read from a file. -/
theorem loadMachine_of_loadProgram {source : String} {p : Program}
    (h : loadProgram files path = .ok (source, p)) (limit : Option Nat) :
    ∃ m, loadMachine p limit = .ok m := by
  have hvalid := (Program.assembled_of_ofTokens (parse_of_loadProgram h)).valid
  unfold loadMachine
  split
  next => exact ⟨_, rfl⟩
  next hnot => exact absurd hvalid hnot

/-! ### What is answered -/

variable {patience : Nat}

theorem endsIn_runPlain (source : String) (m : Machine) (inbox : List Value) (tiles : Tiles) :
    EndsIn [.success, .badInput, .runtimeError]
      (.ok (runPlain patience source m inbox tiles)) := by
  intro report h
  have ⟨result, _, hreport⟩ := Option.map_eq_some_iff.1 h
  rw [← hreport]
  cases result <;> simp [failedRun]

theorem endsIn_runVerbose (source : String) (m : Machine) (inbox : List Value) (tiles : Tiles) :
    EndsIn [.success, .badInput, .runtimeError]
      (.ok (runVerbose patience source m inbox tiles)) := by
  intro report h
  have ⟨⟨frames, last, e⟩, _, hreport⟩ := Option.bind_eq_some_iff.1 h
  cases last <;> cases hreport <;> simp [failedRun]

theorem endsIn_answerRun (inbox tiles : Option String) (verbose : Bool) (maxSteps : Nat) :
    EndsIn [.success, .badInput, .runtimeError]
      (answerRun files patience path inbox tiles verbose maxSteps) := by
  unfold answerRun
  apply endsIn_bind (by simp) blamesInput_loadProgram
  intro ⟨source, program⟩ hprogram
  apply endsIn_bind (by simp) blamesInput_loadInbox
  intro inbox _
  apply endsIn_bind (by simp) blamesInput_loadTiles
  intro tiles _
  have ⟨m, hm⟩ := loadMachine_of_loadProgram hprogram (limitOf maxSteps)
  rw [hm]
  cases verbose with
  | true => exact endsIn_runVerbose source m inbox tiles
  | false => exact endsIn_runPlain source m inbox tiles

theorem endsIn_answerCheck : EndsIn [.success, .badInput] (some <$> answerCheck files path) := by
  unfold answerCheck
  rw [map_bind]
  apply endsIn_bind (by simp) blamesInput_loadProgram
  intro ⟨source, program⟩ hprogram
  have ⟨m, hm⟩ := loadMachine_of_loadProgram hprogram none
  dsimp only
  rw [hm]
  intro report h
  cases h
  simp

theorem endsIn_answerFormat : EndsIn [.success, .badInput] (some <$> answerFormat files path) := by
  unfold answerFormat
  rw [map_bind]
  apply endsIn_bind (by simp) blamesInput_loadProgram
  intro ⟨source, program⟩ _ report h
  cases h
  simp

theorem endsIn_answerTest (fixturePath : String) (maxSteps : Nat) :
    EndsIn [.success, .badInput, .mismatch]
      (answerTest files patience path fixturePath maxSteps) := by
  unfold answerTest
  apply endsIn_bind (by simp) blamesInput_loadProgram
  intro ⟨source, program⟩ hprogram
  apply endsIn_bind (by simp) blamesInput_loadFixture
  intro fixture _
  have ⟨m, hm⟩ := loadMachine_of_loadProgram hprogram (limitOf maxSteps)
  rw [hm]
  intro report h
  have ⟨verdicts, _, hreport⟩ := Option.map_eq_some_iff.1 h
  rw [← hreport]
  unfold testReport
  dsimp only
  split <;> simp

theorem ending_mem_of_respond? {c : Command} {report : Report}
    (h : respond? files patience c = some report) : report.ending ∈ c.endings := by
  cases c with
  | run path inbox tiles verbose maxSteps =>
    exact endsIn_answerRun inbox tiles verbose maxSteps report h
  | check path => exact endsIn_answerCheck report h
  | format path => exact endsIn_answerFormat report h
  | test path fixture maxSteps => exact endsIn_answerTest fixture maxSteps report h

theorem invalidProgram_not_mem (c : Command) : .invalidProgram ∉ c.endings := by
  cases c <;> simp [endings]

end Command

theorem Ending.exitCode_eq_two_iff {ending : Ending} :
    ending.exitCode = 2 ↔ ending = .invalidProgram := by
  cases ending <;> simp [exitCode]

/-- Any tokens can be read without looking for a position that is not there. What is
accepted passes all checks, has a line for each instruction and names only tiles that a
text can name. So the checks before a run never refuse a program that comes from a file. -/
theorem Program.assembled_of_tokens (tokens : List Token) :
    (Indexed.program tokens).run = some (Program.ofTokens tokens) ∧
      (∀ p, Program.ofTokens tokens = .ok p → p.Assembled) ∧
      ∀ files patience command report,
        Command.respond? files patience command = some report → report.exitCode ≠ 2 := by
  refine ⟨Indexed.program_eq tokens, fun p => assembled_of_ofTokens, ?_⟩
  intro files patience command report hreport hcode
  have hending := Command.ending_mem_of_respond? hreport
  rw [Report.exitCode, Ending.exitCode_eq_two_iff] at hcode
  rw [hcode] at hending
  exact command.invalidProgram_not_mem hending

/-- No text gives these tokens: the lines run backwards, an integer has a plus sign, a
jump names its label by what was marked as an integer, and the spans are made up. -/
theorem Program.assembled_backwards :
    let tokens : List Token :=
      [⟨.word, "BumpUp", 9, ⟨4, 4⟩⟩, ⟨.leftBracket, "(", 9, ⟨0, 7⟩⟩, ⟨.integer, "+5", 9, ⟨3, 1⟩⟩,
        ⟨.rightBracket, ")", 9, ⟨0, 0⟩⟩, ⟨.labelDef, "top:", 4, ⟨8, 9⟩⟩,
        ⟨.word, "jump", 3, ⟨0, 0⟩⟩, ⟨.comment, "top", 3, ⟨0, 0⟩⟩, ⟨.integer, "top", 3, ⟨6, 2⟩⟩]
    let p : Program :=
      ⟨#[⟨.bumpup, .tile (.indirect 5)⟩, ⟨.jump, .label "top" 1⟩],
        (∅ : Labels) |>.insert "top" 1, #[9, 3]⟩
    Program.ofTokens tokens = .ok p ∧ p.Assembled := by
  intro tokens p
  have h : Program.ofTokens tokens = .ok p := toOption_eq_some.1 (by decide +kernel)
  exact ⟨h, (Program.assembled_of_tokens tokens).2.1 p h⟩

end TileMachine
