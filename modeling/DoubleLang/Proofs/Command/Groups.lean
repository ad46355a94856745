import DoubleLang.Command.Run
import DoubleLang.File.Tree
import DoubleLang.Proofs.Command.Arguments
import DoubleLang.Proofs.File.Extension

/-!
The grammar of the command line.

Arguments are groups, each of which makes one setting, and then an entry file. A word for help or
for the version may stand in the place of the entry, and then nothing behind it counts. Any other
arguments are refused.
-/

namespace DoubleLang.Command

/-- Arguments that make one setting together, as they are written. -/
inductive Group where
  /-- A word of a setting that has no path. -/
  | flag (setting : Setting) (word : String) (listed : word ∈ setting.words)
  /-- A path behind its option, whatever the path looks like. -/
  | output (option path : String) (listed : option ∈ ["-o", "--output"]) (filled : path ≠ "")
  /-- A path in one argument with its option. -/
  | joined (path : String) (filled : path ≠ "")

namespace Group

/-- The arguments of a group. -/
def arguments : Group → List String
  | .flag _ word _ => [word]
  | .output option path _ _ => [option, path]
  | .joined path _ => ["--output=" ++ path]

/-- The output path of a group. -/
def path? : Group → Option String
  | .flag _ _ _ => none
  | .output _ path _ _ => some path
  | .joined path _ => some path

/-- The setting that a group makes. -/
def setting : Group → Setting
  | .flag setting _ _ => setting
  | .output _ path _ _ => .output path
  | .joined path _ => .output path

/-- The arguments of groups, one group after another. -/
def argumentsOfAll (groups : List Group) : List String :=
  groups.flatMap arguments

/-- The output path that comes last. -/
def lastPath? (groups : List Group) : Option String :=
  (groups.filterMap path?).getLast?

end Group

/-- A written path ends in the extension of assembly, in either case, behind a stem; slashes behind
it do not count. -/
def EndsInAssembly (path : String) : Prop :=
  ∃ folder stem ending slashes, path.toList = folder ++ (stem ++ ending ++ slashes) ∧
    (folder = [] ∨ folder.getLast? = some '/') ∧ stem ≠ [] ∧ '/' ∉ stem ∧
    ending ∈ [['.', 's'], ['.', 'S']] ∧ ∀ c ∈ slashes, c = '/'

/-- A request is spelled by arguments: groups that say all of it, and then its entry. -/
structure Request.SpelledBy (request : Request) (arguments : List String) (groups : List Group) :
    Prop where
  split : arguments = Group.argumentsOfAll groups ++ [request.entry]
  entry : request.entry.toList.head? ≠ some '-'
  output : request.output = Group.lastPath? groups
  map : request.map = true ↔
    ["-m"] ∈ groups.map Group.arguments ∨ ["--map"] ∈ groups.map Group.arguments
  print : request.print = true ↔
    ["-p"] ∈ groups.map Group.arguments ∨ ["--print"] ∈ groups.map Group.arguments
  ending : request.ending = .crlf ↔ ["--crlf"] ∈ groups.map Group.arguments
  /-- The settings go together. -/
  extension : ∀ path, request.output = some path → EndsInAssembly path
  alone : request.print = true → request.output = none ∧ request.map = false

/-- One of some words stands behind groups, whatever follows it. -/
def ReachesWord (words arguments : List String) : Prop :=
  ∃ groups word rest, arguments = Group.argumentsOfAll groups ++ word :: rest ∧ word ∈ words

/-- A character is an `s` in lower case if it is one in either case. -/
private theorem toLower_eq_s {c : Char} (lower : c.toLower = 's') : c = 's' ∨ c = 'S' := by
  -- The character is lowered, or it is in lower case as it stands.
  unfold Char.toLower at lower
  split at lower
  · -- Lower case lies 32 codes above upper case.
    have codes : c.val + 32 = 83 + 32 := congrArg Char.val lower
    exact .inr (Char.ext ((UInt32.add_left_inj 32).mp codes))
  · exact .inl lower

/-- A path names assembly exactly if it ends so. -/
theorem namesAssembly_iff (path : String) : namesAssembly path = true ↔ EndsInAssembly path := by
  -- Texts are compared by their characters.
  rw [namesAssembly, beq_iff_eq, ← String.toList_inj]
  show ((Path.extension (Path.writtenName path)).map Char.toLower).toList = ".s".toList ↔ _
  rw [String.toList_map]
  constructor
  · intro named
    have extended : Path.extension (Path.writtenName path) ≠ "" := by
      intro bare
      rw [bare] at named
      cases named
    obtain ⟨stem, after, whole, filled, -, extension⟩ := Path.exists_stem extended
    -- Behind the point stands one character.
    have ending : '.' :: after ∈ [['.', 's'], ['.', 'S']] := by
      rw [extension, String.toList_ofList] at named
      cases after with
      | nil => simp at named
      | cons c more =>
        cases more with
        | nil =>
          have lower : c.toLower = 's' := by simpa using named
          rcases toLower_eq_s lower with rfl | rfl <;> decide
        | cons d rest => simp at named
    rcases Path.slashes_or_lastPart path.toList with only | ⟨folder, name, slashes, split, closed,
      spoken, plain, only⟩
    · rw [Path.writtenName_slashes only] at extended
      exact absurd rfl extended
    · have last := Path.writtenName_eq closed spoken plain only
      rw [← split, String.ofList_toList] at last
      rw [last, String.toList_ofList] at whole
      subst whole
      refine ⟨folder, stem, '.' :: after, slashes, split, closed, filled, ?_, ending, only⟩
      simp only [List.mem_append, not_or] at plain
      exact plain.1
  · intro ends
    obtain ⟨folder, stem, ending, slashes, split, closed, filled, plain, listed, only⟩ := ends
    obtain ⟨c, rfl, either⟩ : ∃ c, ending = ['.', c] ∧ (c = 's' ∨ c = 'S') := by
      simp only [List.mem_cons, List.not_mem_nil, or_false] at listed
      rcases listed with rfl | rfl
      · exact ⟨'s', rfl, .inl rfl⟩
      · exact ⟨'S', rfl, .inr rfl⟩
    have last := Path.writtenName_eq closed (show stem ++ ['.', c] ≠ [] by simp)
      (by rcases either with rfl | rfl <;> simp [plain]) only
    rw [← split, String.ofList_toList] at last
    rw [last, Path.extension_eq filled (by rcases either with rfl | rfl <;> decide) (by simp)]
    rw [String.toList_ofList]
    rcases either with rfl | rfl <;> decide

/-- A request passes its check exactly if its settings go together. -/
theorem Request.check_eq_ok_iff (request : Request) : request.check = .ok request ↔
    (∀ path, request.output = some path → EndsInAssembly path) ∧
      (request.print = true → request.output = none ∧ request.map = false) := by
  -- Without an output only the other combination is asked for.
  obtain ⟨entry, output, map, print, ending⟩ := request
  unfold check
  cases output with
  | none => cases map <;> cases print <;> simp
  | some path =>
    rw [show (some path).any (! namesAssembly ·) = ! namesAssembly path from rfl]
    cases named : namesAssembly path with
    | true => cases print <;> simp [← namesAssembly_iff, named]
    | false => simp [← namesAssembly_iff, named]

/-- Help is asked for by its words alone. -/
private theorem Word.of_eq_help_iff {argument : String} :
    Word.of argument = .help ↔ argument ∈ ["-h", "--help"] := by
  -- Each test for a word is of its own, so only the first can have led here.
  constructor
  · intro read
    unfold Word.of at read
    split_ifs at read
    simpa
  · have each : ∀ word ∈ ["-h", "--help"], Word.of word = .help := by decide
    exact each argument

/-- The version is asked for by its words alone. -/
private theorem Word.of_eq_version_iff {argument : String} :
    Word.of argument = .version ↔ argument ∈ ["-V", "--version"] := by
  -- Each test for a word is of its own, so only the second can have led here.
  constructor
  · intro read
    unfold Word.of at read
    split_ifs at read
    simpa
  · have each : ∀ word ∈ ["-V", "--version"], Word.of word = .version := by decide
    exact each argument

/-- An entry is whatever does not start with a minus. -/
private theorem Word.of_eq_entry_iff {argument : String} :
    Word.of argument = .entry ↔ argument.toList.head? ≠ some '-' := by
  -- What no other test takes is an entry, unless it starts with a minus.
  constructor
  · intro read
    unfold Word.of at read
    split_ifs at read
    assumption
  · intro bare
    have marked : ¬ outputMark.toList.isPrefixOf argument.toList := by
      intro joined
      obtain ⟨path, whole⟩ := List.isPrefixOf_iff_prefix.mp joined
      rw [← whole] at bare
      exact bare rfl
    -- Every word that has a meaning of its own starts with a minus.
    have differ : ∀ word : String, word.toList.head? = some '-' → argument ≠ word := by
      intro word minus same
      rw [same] at bare
      exact bare minus
    simp [Word.of, marked, bare, differ "-h" rfl, differ "--help" rfl, differ "-V" rfl,
      differ "--version" rfl, differ "-o" rfl, differ "--output" rfl, differ "-m" rfl,
      differ "--map" rfl, differ "-p" rfl, differ "--print" rfl, differ "--crlf" rfl]

/-- A path in one argument with its option is read whole. -/
private theorem Word.of_joined (path : String) :
    Word.of ("--output=" ++ path) = .setting (.output path) := by
  simp [Word.of, outputMark, String.toList_append]

/-- An argument that makes a setting is a group of its own. -/
private theorem exists_group_of_setting {argument : String} {setting : Setting}
    (read : Word.of argument = .setting setting) (filled : setting ≠ .output "") :
    ∃ group : Group, group.arguments = [argument] ∧ group.setting = setting := by
  -- An argument that names its output carries the path with it; all others are flags.
  cases setting with
  | output path =>
    have named : path ≠ "" := by
      intro bare
      exact filled (by rw [bare])
    refine ⟨.joined path named, ?_, rfl⟩
    unfold Word.of at read
    split_ifs at read with marked <;> cases read
    -- What stands behind the mark is the path.
    obtain ⟨after, whole⟩ := List.isPrefixOf_iff_prefix.mp marked
    rw [Group.arguments, ← whole, List.drop_left, List.cons.injEq, ← String.toList_inj]
    rw [String.toList_append, String.toList_ofList (l := after), ← whole]
    exact ⟨rfl, rfl⟩
  | map => exact ⟨.flag .map argument ((Word.of_eq_setting_iff rfl).mp read), rfl, rfl⟩
  | print => exact ⟨.flag .print argument ((Word.of_eq_setting_iff rfl).mp read), rfl, rfl⟩
  | crlf => exact ⟨.flag .crlf argument ((Word.of_eq_setting_iff rfl).mp read), rfl, rfl⟩

namespace Group

/-- A group makes no setting of an empty path. -/
private theorem setting_ne (group : Group) : group.setting ≠ .output "" := by
  -- Flags make settings of their own words, and paths in groups are not empty.
  cases group with
  | flag setting word listed =>
    intro empty
    rw [show setting = .output "" from empty] at listed
    cases listed
  | output option path listed filled => simpa [setting] using filled
  | joined path filled => simpa [setting] using filled

/-- A group of one argument is read from it alone. -/
private theorem word_of_arguments {group : Group} {word : String}
    (single : group.arguments = [word]) :
    Word.of word = .setting group.setting := by
  -- Flags and joined outputs have one argument; an output with its path apart has two.
  cases group with
  | flag setting own listed =>
    cases single
    -- No flag is the setting of a path.
    have plain : setting.output? = none := by
      cases setting with
      | output path => cases listed
      | _ => rfl
    exact (Word.of_eq_setting_iff plain).mpr listed
  | output option path => cases single
  | joined path filled =>
    cases single
    exact Word.of_joined path

/-- A group makes a setting without a path exactly if it is one of its words. -/
private theorem setting_eq_iff {setting : Setting} (plain : setting.output? = none)
    (group : Group) :
    group.setting = setting ↔ ∃ word ∈ setting.words, [word] = group.arguments := by
  -- A group shows its words in its arguments, and each word makes one setting.
  constructor
  · intro made
    subst made
    cases group with
    | flag own word listed => exact ⟨word, listed, rfl⟩
    | output option path => cases plain
    | joined path => cases plain
  · intro ⟨word, listed, whole⟩
    have read := word_of_arguments whole.symm
    rw [(Word.of_eq_setting_iff plain).mpr listed] at read
    cases read
    rfl

/-- A setting without a path is made exactly if one of its words is a group. -/
private theorem mem_settings_iff {setting : Setting} (plain : setting.output? = none)
    (groups : List Group) : setting ∈ groups.map Group.setting ↔
      ∃ word ∈ setting.words, [word] ∈ groups.map Group.arguments := by
  -- The group in question is the same on both sides.
  simp only [List.mem_map, setting_eq_iff plain]
  constructor
  · intro ⟨group, listed, word, own, whole⟩
    exact ⟨word, own, group, listed, whole.symm⟩
  · intro ⟨word, own, group, listed, whole⟩
    exact ⟨group, listed, word, own, whole.symm⟩

/-- The paths of the settings are those of the groups. -/
private theorem filterMap_settings (groups : List Group) :
    (groups.map Group.setting).filterMap Setting.output? = groups.filterMap Group.path? := by
  -- Group by group: flags have no path, and outputs have their own.
  rw [List.filterMap_map]
  apply List.filterMap_congr
  intro group _
  cases group with
  | flag setting word listed =>
    cases setting with
    | output path => cases listed
    | _ => rfl
  | _ => rfl

end Group

namespace Arguments

/-- A setting with a path, or without need of one, joins those that follow. -/
private theorem push_of_ne {setting : Setting} (filled : setting ≠ .output "") (rest : Arguments) :
    push setting rest = ⟨setting :: rest.settings, rest.ending⟩ :=
  if_neg filled

/-- An argument that makes a setting is read in front of the rest. -/
private theorem read_setting {argument : String} {setting : Setting}
    (word : Word.of argument = .setting setting) (rest : List String) :
    read (argument :: rest) = push setting (read rest) := by
  rw [read.eq_def (argument :: rest)]
  simp only [word]

/-- A group is read as its setting. -/
private theorem read_group (group : Group) (rest : List String) :
    read (group.arguments ++ rest) =
      ⟨group.setting :: (read rest).settings, (read rest).ending⟩ := by
  -- What a group reads as is pushed, for its path is not empty.
  rw [← push_of_ne group.setting_ne]
  cases group with
  | flag setting word listed => exact read_setting (Group.word_of_arguments rfl) rest
  | output option path listed filled =>
    -- The path stands in the next argument.
    have awaited : Word.of option = .outputNext :=
      Word.of_eq_outputNext_iff.mpr (by simpa using listed)
    simp only [Group.arguments, List.cons_append, List.nil_append, read, awaited]
    rfl
  | joined path filled => exact read_setting (Group.word_of_arguments rfl) rest

/-- Groups are read as their settings, whatever follows them. -/
private theorem read_groups (groups : List Group) (rest : List String) :
    read (Group.argumentsOfAll groups ++ rest) =
      ⟨groups.map Group.setting ++ (read rest).settings, (read rest).ending⟩ := by
  -- Nothing of a group is left for what is read behind it.
  induction groups with
  | nil => rfl
  | cons group later ih =>
    have split : Group.argumentsOfAll (group :: later) ++ rest =
        group.arguments ++ (Group.argumentsOfAll later ++ rest) := by
      simp [Group.argumentsOfAll]
    rw [split, read_group, ih]
    rfl

end Arguments

/-- What arguments start with when the settings have ended in front of them. -/
def Ending.Opens : Ending → List String → Prop
  | .help, rest => ∃ word later, rest = word :: later ∧ word ∈ ["-h", "--help"]
  | .version, rest => ∃ word later, rest = word :: later ∧ word ∈ ["-V", "--version"]
  | .entry file, rest => rest = [file] ∧ file.toList.head? ≠ some '-'
  | .refused _, _ => True

/-- Arguments are groups that make the settings, and behind them what ends these. -/
private theorem Arguments.read_splits (arguments : List String) : ∃ groups rest,
    arguments = Group.argumentsOfAll groups ++ rest ∧
      (read arguments).settings = groups.map Group.setting ∧
      (read arguments).ending.Opens rest := by
  -- A setting is one group more in front, and a refusal leaves all arguments over.
  fun_induction read arguments with
  | case1 => exact ⟨[], [], rfl, rfl, trivial⟩
  | case2 argument rest setting word ih =>
    by_cases empty : setting = .output ""
    · rw [push, if_pos empty]
      exact ⟨[], _, rfl, rfl, trivial⟩
    · obtain ⟨groups, later, split, settings, opens⟩ := ih
      obtain ⟨group, whole, made⟩ := exists_group_of_setting word empty
      rw [push_of_ne empty]
      refine ⟨group :: groups, later, ?_, ?_, opens⟩
      · simp [Group.argumentsOfAll, whole, split]
      · simp [made, settings]
  | case3 argument word => exact ⟨[], _, rfl, rfl, trivial⟩
  | case4 argument word path others ih =>
    by_cases empty : path = ""
    · rw [push, if_pos (by rw [empty])]
      exact ⟨[], _, rfl, rfl, trivial⟩
    · obtain ⟨groups, later, split, settings, opens⟩ := ih
      rw [push_of_ne (by simpa using empty)]
      have listed : argument ∈ ["-o", "--output"] := by
        simpa using Word.of_eq_outputNext_iff.mp word
      refine ⟨.output argument path listed empty :: groups, later, ?_, ?_, opens⟩
      · simp [Group.argumentsOfAll, Group.arguments, split]
      · simp [Group.setting, settings]
  | case5 argument rest word =>
    exact ⟨[], _, rfl, rfl, argument, rest, rfl, Word.of_eq_help_iff.mp word⟩
  | case6 argument rest word =>
    exact ⟨[], _, rfl, rfl, argument, rest, rfl, Word.of_eq_version_iff.mp word⟩
  | case7 argument rest word => exact ⟨[], _, rfl, rfl, trivial⟩
  | case8 argument rest word =>
    refine ⟨[], _, rfl, rfl, ?_⟩
    cases rest with
    | nil => exact ⟨rfl, Word.of_eq_entry_iff.mp word⟩
    | cons next later => trivial

/-- Settings end in a word exactly if arguments reach it. -/
private theorem Arguments.ending_iff_reachesWord {arguments words : List String} {ending : Ending}
    (opens : ∀ rest, ending.Opens rest → ∃ word later, rest = word :: later ∧ word ∈ words)
    (stops : ∀ word ∈ words, ∀ rest, read (word :: rest) = stop ending) :
    (read arguments).ending = ending ↔ ReachesWord words arguments := by
  -- Reading splits arguments into groups and what opens the ending.
  constructor
  · intro ended
    obtain ⟨groups, rest, split, -, opened⟩ := read_splits arguments
    rw [ended] at opened
    obtain ⟨word, later, rfl, listed⟩ := opens rest opened
    exact ⟨groups, word, later, split, listed⟩
  · intro ⟨groups, word, rest, split, listed⟩
    rw [split, read_groups, stops word listed rest, stop]

/-- A request follows from its entry and settings. -/
private theorem Request.eq_of_iff {request : Request} {settings : List Setting} :
    request = Request.of request.entry settings ↔
      request.output = (settings.filterMap Setting.output?).getLast? ∧
      (request.map = true ↔ .map ∈ settings) ∧ (request.print = true ↔ .print ∈ settings) ∧
      (request.ending = .crlf ↔ .crlf ∈ settings) := by
  -- A request has five parts: the entry is its own, and four follow from the settings.
  obtain ⟨entry, output, map, print, ending⟩ := request
  have ends : (ending = if settings.contains .crlf then .crlf else .lf) ↔
      (ending = .crlf ↔ .crlf ∈ settings) := by
    by_cases listed : .crlf ∈ settings <;> cases ending <;> simp [listed]
  -- A flag is set exactly if its setting is among them.
  have flags : ∀ (flag : Bool) (setting : Setting),
      (flag = settings.contains setting) ↔ (flag = true ↔ setting ∈ settings) := by
    intro flag setting
    rw [Bool.eq_iff_iff, List.contains_iff_mem]
  rw [Request.of, Request.mk.injEq, ends, flags, flags]
  simp only [true_and]

/-- Groups and an entry spell exactly the request of their settings, where these go together. -/
private theorem Request.spelledBy_iff {request : Request} {arguments : List String}
    {groups : List Group} :
    request.SpelledBy arguments groups ↔
      arguments = Group.argumentsOfAll groups ++ [request.entry] ∧
      request.entry.toList.head? ≠ some '-' ∧
      request = Request.of request.entry (groups.map Group.setting) ∧
      request.check = .ok request := by
  -- The two conditions name the same facts in another grouping.
  rw [Request.eq_of_iff, Request.check_eq_ok_iff, Group.filterMap_settings,
    Group.mem_settings_iff rfl, Group.mem_settings_iff rfl, Group.mem_settings_iff rfl]
  simp only [Setting.words, List.exists_mem_cons_iff, List.not_mem_nil, false_and, exists_false,
    or_false]
  constructor
  · intro spelled
    obtain ⟨split, entry, output, map, print, ending, extension, alone⟩ := spelled
    exact ⟨split, entry, ⟨output, map, print, ending⟩, extension, alone⟩
  · intro spelled
    obtain ⟨split, entry, ⟨output, map, print, ending⟩, extension, alone⟩ := spelled
    exact ⟨split, entry, output, map, print, ending, extension, alone⟩

/-- Of groups a request keeps the last path and which settings they make, and not their order. -/
private theorem Request.of_perm {first second : List Group} (reordered : first.Perm second)
    (last : Group.lastPath? first = Group.lastPath? second) (entry : String)
    (rest : List Setting) :
    Request.of entry (first.map Group.setting ++ rest) =
      Request.of entry (second.map Group.setting ++ rest) := by
  -- Whether a setting occurs does not depend on the order, and the last path is given.
  have settings := (reordered.map Group.setting).append_right rest
  simp only [Group.lastPath?] at last
  simp only [Request.of, settings.contains_eq, List.filterMap_append, Group.filterMap_settings,
    List.getLast?_append, last]

namespace Invocation

/-- A compilation is asked for exactly by arguments that spell its request. -/
theorem ofArguments_eq_compile_iff {arguments : List String} {request : Request} :
    ofArguments arguments = .ok (.compile request) ↔
      ∃ groups, request.SpelledBy arguments groups := by
  simp only [Request.spelledBy_iff]
  -- Reading splits arguments into groups and an entry, and reads such arguments as they are split.
  constructor
  · intro asked
    obtain ⟨groups, rest, split, settings, opens⟩ := Arguments.read_splits arguments
    simp only [ofArguments] at asked
    cases ended : (Arguments.read arguments).ending with
    | help => simp [ended] at asked
    | version => simp [ended] at asked
    | refused error => simp [ended] at asked
    | entry file =>
      rw [ended] at opens asked
      obtain ⟨rfl, bare⟩ := opens
      rw [settings] at asked
      cases passed : (Request.of file (groups.map Group.setting)).check with
      | error refusal => simp [passed, Except.map] at asked
      | ok checked =>
        have same : checked = request := by simpa [passed, Except.map] using asked
        have made := Request.of_check passed
        rw [same] at made
        subst made
        rw [same] at passed
        exact ⟨groups, split, bare, rfl, passed⟩
  · intro spelled
    obtain ⟨groups, split, bare, made, passed⟩ := spelled
    -- The entry ends the reading behind the groups.
    have last : Arguments.read [request.entry] = .stop (.entry request.entry) := by
      simp [Arguments.read, Word.of_eq_entry_iff.mpr bare]
    simp only [ofArguments, split, Arguments.read_groups, last, Arguments.stop, List.append_nil]
    rw [← made, passed]
    rfl

/-- No compilation is asked for exactly where the settings end so. -/
private theorem ofArguments_eq_ok_iff {arguments : List String} :
    (ofArguments arguments = .ok .help ↔ (Arguments.read arguments).ending = .help) ∧
      (ofArguments arguments = .ok .version ↔ (Arguments.read arguments).ending = .version) := by
  -- An entry leads to a request or a refusal, never to help or the version.
  simp only [ofArguments]
  cases (Arguments.read arguments).ending with
  | entry file =>
    cases checked : (Request.of file (Arguments.read arguments).settings).check <;>
      simp [checked, Except.map]
  | _ => simp

/-- Help is shown exactly for arguments that reach a word for it. -/
private theorem ofArguments_eq_help_iff {arguments : List String} :
    ofArguments arguments = .ok .help ↔ ReachesWord ["-h", "--help"] arguments := by
  -- A word for help ends the settings wherever it is read.
  rw [ofArguments_eq_ok_iff.1]
  refine Arguments.ending_iff_reachesWord (fun rest opened => opened) fun word listed rest => ?_
  rw [Arguments.read.eq_def]
  simp only [Word.of_eq_help_iff.mpr listed]

/-- The version is shown exactly for arguments that reach a word for it. -/
private theorem ofArguments_eq_version_iff {arguments : List String} :
    ofArguments arguments = .ok .version ↔ ReachesWord ["-V", "--version"] arguments := by
  -- A word for the version ends the settings wherever it is read.
  rw [ofArguments_eq_ok_iff.2]
  refine Arguments.ending_iff_reachesWord (fun rest opened => opened) fun word listed rest => ?_
  rw [Arguments.read.eq_def]
  simp only [Word.of_eq_version_iff.mpr listed]

/-- Groups in another order ask for the same, whatever follows, if the same output comes last. -/
private theorem ofArguments_perm {first second : List Group} (reordered : first.Perm second)
    (last : Group.lastPath? first = Group.lastPath? second) (rest : List String) :
    ofArguments (Group.argumentsOfAll first ++ rest) =
      ofArguments (Group.argumentsOfAll second ++ rest) := by
  simp only [ofArguments, Arguments.read_groups, Request.of_perm reordered last]

end Invocation

/-- A word for help or for the version is reached if one for either is. -/
private theorem reachesWord_append (words others arguments : List String) :
    ReachesWord (words ++ others) arguments ↔
      ReachesWord words arguments ∨ ReachesWord others arguments := by
  simp only [ReachesWord, List.mem_append, and_or_left, exists_or]

/-- A word for help or for the version is reached exactly if one of the two is asked for. -/
theorem reachesWord_iff_early (arguments : List String) :
    ReachesWord ["-h", "--help", "-V", "--version"] arguments ↔
      Invocation.ofArguments arguments = .ok .help ∨
        Invocation.ofArguments arguments = .ok .version := by
  rw [Invocation.ofArguments_eq_help_iff, Invocation.ofArguments_eq_version_iff]
  exact reachesWord_append ["-h", "--help"] ["-V", "--version"] arguments

/-- The arguments of the command line are taken by their grammar. A compilation is asked for exactly
by groups that spell it, whose order matters through the last output only; a run ends early with
success exactly where groups lead to a word for help or for the version; and any other arguments are
refused. -/
theorem arguments_follow_grammar {m : Type → Type} [Monad m] (version : String)
    (files : FileAccess m) (directory : Path) (arguments : List String) :
    (∀ request, Invocation.ofArguments arguments = .ok (.compile request) ↔
      ∃ groups, request.SpelledBy arguments groups) ∧
    (∀ first second rest, first.Perm second → Group.lastPath? first = Group.lastPath? second →
      Invocation.ofArguments (Group.argumentsOfAll first ++ rest) =
        Invocation.ofArguments (Group.argumentsOfAll second ++ rest)) ∧
    (Invocation.ofArguments arguments = .ok .help ↔ ReachesWord ["-h", "--help"] arguments) ∧
    (Invocation.ofArguments arguments = .ok .version ↔
      ReachesWord ["-V", "--version"] arguments) ∧
    (ReachesWord ["-h", "--help", "-V", "--version"] arguments →
      ∃ report, run version files directory arguments = pure report ∧ report.code = 0) ∧
    ((∀ (request : Request) groups, ¬ request.SpelledBy arguments groups) →
      ¬ ReachesWord ["-h", "--help", "-V", "--version"] arguments →
      ∃ error report, Invocation.ofArguments arguments = .error error ∧
        run version files directory arguments = pure report ∧ report.code = 2) := by
  -- What is left to show is how a run ends for arguments that ask for no compilation.
  have either := reachesWord_append ["-h", "--help"] ["-V", "--version"] arguments
  refine ⟨fun request => Invocation.ofArguments_eq_compile_iff,
    fun first second rest reordered last => Invocation.ofArguments_perm reordered last rest,
    Invocation.ofArguments_eq_help_iff, Invocation.ofArguments_eq_version_iff, ?_, ?_⟩
  · intro reached
    rcases either.mp reached with help | shown
    · refine ⟨{ code := 0, output := usage }, ?_, rfl⟩
      rw [run, Invocation.ofArguments_eq_help_iff.mpr help]
    · refine ⟨{ code := 0, output := version ++ "\n" }, ?_, rfl⟩
      rw [run, Invocation.ofArguments_eq_version_iff.mpr shown]
  · intro unspelled unreached
    -- Each way to accept arguments is one of those that are ruled out.
    cases asked : Invocation.ofArguments arguments with
    | error error =>
      refine ⟨error, ⟨2, "", complaint error.message ++ usage ++ "\n"⟩, rfl, ?_, rfl⟩
      rw [run, asked]
    | ok invocation =>
      cases invocation with
      | help =>
        have reached := Invocation.ofArguments_eq_help_iff.mp asked
        exact absurd (either.mpr (.inl reached)) unreached
      | version =>
        have reached := Invocation.ofArguments_eq_version_iff.mp asked
        exact absurd (either.mpr (.inr reached)) unreached
      | compile request =>
        obtain ⟨groups, spelled⟩ := Invocation.ofArguments_eq_compile_iff.mp asked
        exact absurd spelled (unspelled request groups)

/-- A path may look like a setting, give way to a later one and end in slashes; help wins over what
follows it, and not over what stands before it. -/
theorem arguments_taken_apart :
    Invocation.ofArguments ["-o", "-p", "--output=A.S/", "-m", "x"] =
      .ok (.compile ⟨"x", some "A.S/", true, false, .lf⟩) ∧
    Invocation.ofArguments ["-m", "-o", "-p", "--output=A.S/", "x"] =
      Invocation.ofArguments ["-o", "-p", "--output=A.S/", "-m", "x"] ∧
    (∃ report, run "0.1.0" FileTree.access .root ["-o", "-x", "-h", "-x"] = pure report ∧
      report.code = 0) ∧
    ∃ error report, Invocation.ofArguments ["-x", "-h"] = .error error ∧
      run "0.1.0" FileTree.access .root ["-x", "-h"] = pure report ∧ report.code = 2 := by
  -- The settings of the list, as groups.
  let paths : List Group := [.output "-o" "-p" (by decide) (by decide), .joined "A.S/" (by decide)]
  let map : Group := .flag .map "-m" (by decide)
  refine ⟨?_, ?_, ?_, ?_⟩
  · refine ((arguments_follow_grammar "0.1.0" FileTree.access .root _).1 _).mpr ⟨paths ++ [map], ?_⟩
    refine ⟨rfl, by decide, rfl, by decide, by decide, by decide, ?_, by decide⟩
    -- The path ends in a slash, which does not hide its extension.
    intro path named
    cases named
    exact ⟨[], ['A'], ['.', 'S'], ['/'], rfl, .inl rfl, by decide, by decide, by decide, by simp⟩
  · exact (arguments_follow_grammar "0.1.0" FileTree.access .root []).2.1 (map :: paths)
      (paths ++ [map]) ["x"] (List.perm_append_singleton map paths).symm rfl
  · apply (arguments_follow_grammar "0.1.0" FileTree.access .root _).2.2.2.2.1
    exact ⟨[.output "-o" "-x" (by decide) (by decide)], "-h", ["-x"], rfl, by decide⟩
  · -- The first argument refuses the list, so that nothing else can be made of it.
    have refused : Invocation.ofArguments ["-x", "-h"] = .error (.unknownOption "-x") := by decide
    apply (arguments_follow_grammar "0.1.0" FileTree.access .root _).2.2.2.2.2
    · intro request groups spelled
      have asked := Invocation.ofArguments_eq_compile_iff.mpr ⟨groups, spelled⟩
      rw [refused] at asked
      cases asked
    · intro reached
      have either := (reachesWord_append ["-h", "--help"] ["-V", "--version"] _).mp reached
      rcases either with help | version
      · rw [← Invocation.ofArguments_eq_help_iff, refused] at help
        cases help
      · rw [← Invocation.ofArguments_eq_version_iff, refused] at version
        cases version

end DoubleLang.Command
