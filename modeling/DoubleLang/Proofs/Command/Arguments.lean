import DoubleLang.Command.Arguments
import Mathlib.Tactic.SplitIfs

/-!
What a request has of the arguments it was read from.

An argument is an option unless it is the path that follows `-o` or `--output`. A setting without a
path is made exactly if one of its words is an option, wherever that stands.
-/

namespace DoubleLang.Command

/-- The arguments without the paths that follow `-o` and `--output`. -/
def options : List String → List String
  | [] => []
  | [argument] => [argument]
  | argument :: next :: rest =>
    if argument = "-o" ∨ argument = "--output" then argument :: options rest
    else argument :: options (next :: rest)

/-- The words of a setting that is one argument without a path. -/
def Setting.words : Setting → List String
  | .map => ["-m", "--map"]
  | .print => ["-p", "--print"]
  | .crlf => ["--crlf"]
  | .output _ => []

/-- A request is what arguments ask for: the entry comes last, and the options say the rest. -/
structure Request.AskedBy (request : Request) (arguments : List String) : Prop where
  entry : arguments.getLast? = some request.entry
  map : request.map = true ↔ "-m" ∈ options arguments ∨ "--map" ∈ options arguments
  print : request.print = true ↔ "-p" ∈ options arguments ∨ "--print" ∈ options arguments
  ending : request.ending = .crlf ↔ "--crlf" ∈ options arguments

/-- A path is awaited behind its options alone. -/
theorem Word.of_eq_outputNext_iff {argument : String} :
    Word.of argument = .outputNext ↔ argument = "-o" ∨ argument = "--output" := by
  -- Each test for a word is of its own, so only this one can have led here.
  constructor
  · intro read
    unfold Word.of at read
    split_ifs at read
    assumption
  · rintro (rfl | rfl) <;> decide

/-- A setting without a path is read from its words alone. -/
theorem Word.of_eq_setting_iff {argument : String} {setting : Setting}
    (plain : setting.output? = none) :
    Word.of argument = .setting setting ↔ argument ∈ setting.words := by
  -- Each test for a word is of its own, and each setting has its words.
  constructor
  · intro read
    unfold Word.of at read
    split_ifs at read <;> cases read
    -- Whatever starts with the mark of an output has a path.
    · cases plain
    all_goals simpa [Setting.words]
  · have each : ∀ word ∈ setting.words, Word.of word = .setting setting := by
      cases setting with
      | output path => cases plain
      | _ => decide
    exact each argument

/-- An argument that awaits no path is an option by itself. -/
private theorem options_cons {argument : String} (rest : List String)
    (alone : Word.of argument ≠ .outputNext) :
    options (argument :: rest) = argument :: options rest := by
  -- With nothing behind it, it is all that is left.
  rw [ne_eq, Word.of_eq_outputNext_iff] at alone
  cases rest with
  | nil => rfl
  | cons next later => rw [options, if_neg alone]

/-- The argument behind one that awaits a path is no option. -/
private theorem options_output {argument path : String} (rest : List String)
    (awaits : Word.of argument = .outputNext) :
    options (argument :: path :: rest) = argument :: options rest := by
  rw [options, if_pos (Word.of_eq_outputNext_iff.mp awaits)]

/-- Settings that end in an entry have not broken off. -/
private theorem Arguments.of_push {setting : Setting} {rest : Arguments} {file : String}
    (ended : (push setting rest).ending = .entry file) :
    rest.ending = .entry file ∧ (push setting rest).settings = setting :: rest.settings := by
  -- Only an output without a path breaks off.
  unfold push at ended ⊢
  split at ended
  · cases ended
  · rename_i named
    rw [if_neg named]
    exact ⟨ended, rfl⟩

/-- One more option in front is a word of a setting, or a later one is. -/
private theorem exists_word_cons {argument : String} {later : List String} {setting : Setting}
    (plain : setting.output? = none) :
    (∃ word ∈ setting.words, word ∈ argument :: later) ↔
      Word.of argument = .setting setting ∨ ∃ word ∈ setting.words, word ∈ later := by
  rw [Word.of_eq_setting_iff plain]
  simp [and_or_left, exists_or]

/-- Arguments that end in an entry have it last, and a setting without a path if and only if an
option is one of its words. -/
private theorem Arguments.of_read {arguments : List String} {file : String}
    (ended : (read arguments).ending = .entry file) :
    arguments.getLast? = some file ∧
      ∀ setting : Setting, setting.output? = none →
        (setting ∈ (read arguments).settings ↔
          ∃ word ∈ setting.words, word ∈ options arguments) := by
  -- Each step takes one argument, or two for a path, and a refusal ends in no entry.
  fun_induction read arguments with
  | case1 => cases ended
  | case2 argument rest made word ih =>
    obtain ⟨later, listed⟩ := of_push ended
    obtain ⟨last, settings⟩ := ih later
    refine ⟨by simp [List.getLast?_cons, last], fun setting plain => ?_⟩
    rw [listed, List.mem_cons, options_cons rest (by simp [word]), exists_word_cons plain, word,
      settings setting plain, Word.setting.injEq, eq_comm]
  | case3 argument word => cases ended
  | case4 argument word path others ih =>
    obtain ⟨later, listed⟩ := of_push ended
    obtain ⟨last, settings⟩ := ih later
    refine ⟨by simp [List.getLast?_cons, last], fun setting plain => ?_⟩
    -- The path is no option, and what it is behind is a word of no setting.
    have differ : setting ≠ .output path := by
      intro same
      rw [same] at plain
      cases plain
    rw [listed, List.mem_cons, options_output others word, exists_word_cons plain, word,
      settings setting plain]
    simp [differ]
  | case5 argument rest word => cases ended
  | case6 argument rest word => cases ended
  | case7 argument rest word => cases ended
  | case8 argument rest word =>
    cases rest with
    | nil =>
      cases ended
      refine ⟨rfl, fun setting plain => ?_⟩
      rw [options, exists_word_cons plain, word]
      simp [stop]
    | cons next later => cases ended

/-- A check that does not refuse a request leaves it as it is. -/
theorem Request.of_check {request checked : Request} (passed : request.check = .ok checked) :
    checked = request := by
  -- A check only refuses.
  unfold check at passed
  split_ifs at passed
  cases passed
  rfl

/-- A request that arguments are read as is what they ask for. -/
theorem Invocation.askedBy_of_compile {arguments : List String} {request : Request}
    (asked : Invocation.ofArguments arguments = .ok (.compile request)) :
    request.AskedBy arguments := by
  -- Only settings that end in an entry lead to a compilation.
  simp only [Invocation.ofArguments] at asked
  cases ended : (Arguments.read arguments).ending with
  | entry file =>
    rw [ended] at asked
    obtain ⟨last, settings⟩ := Arguments.of_read ended
    cases passed : (Request.of file (Arguments.read arguments).settings).check with
    | error refusal => simp [passed, Except.map] at asked
    | ok checked =>
      have same : checked = request := by simpa [passed, Except.map] using asked
      rw [← same, Request.of_check passed]
      refine ⟨last, ?_, ?_, ?_⟩
      · simpa [Request.of, Setting.words] using settings .map rfl
      · simpa [Request.of, Setting.words] using settings .print rfl
      · simpa [Request.of, Setting.words] using settings .crlf rfl
  | help => simp [ended] at asked
  | version => simp [ended] at asked
  | refused error => simp [ended] at asked

end DoubleLang.Command
