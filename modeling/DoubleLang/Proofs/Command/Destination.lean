import DoubleLang.Proofs.Command.Effects
import DoubleLang.Proofs.Command.Groups
import DoubleLang.Proofs.File.Names

/-!
Where the assembly goes.

Arguments name the file of the assembly as the output, or they leave it beside the entry under the
stem of that. A run rebuilds the path from the directory and the stem, and ends it in `.s`. It comes
to the path that was asked for exactly if the stem is no run of one or two dots, which would be
followed on the way, and if an output has its extension in lower case.
-/

namespace DoubleLang.Command

open FileTree

namespace Request

/-- The path that the arguments name: the output, or else the entry. -/
def named (request : Request) (directory : Path) : Path :=
  directory.resolve (request.output.getD request.entry)

/-- The path that the arguments ask the assembly to be written to: the output as it is, or else a
file beside the entry with the extension of assembly in place of its own. -/
def wanted (request : Request) (directory : Path) : Path :=
  match request.output with
  | some path => directory.resolve path
  | none =>
    let entry := directory.resolve request.entry
    entry.sibling (Path.stem entry.name ++ ".s")

/-- The path that the arguments name stays in its place when it is rebuilt from its stem. -/
structure Keeps (request : Request) (directory : Path) : Prop where
  stem : Path.stem (request.named directory).name ∉ [".", ".."]
  /-- An output that ends in `.S` gives way to one that ends in `.s`. -/
  lower : request.output.isSome → Path.extension (request.named directory).name = ".s"

variable {request : Request} {directory : Path}

/-- The assembly is written beside its base, under the name of that and `.s`. -/
private theorem target_eq : request.target directory .assembly =
    (request.base directory).sibling ((request.base directory).name ++ ".s") := by
  rw [target, Path.extend_eq_sibling, suffix]

/-- The assembly is beside what the arguments name, under its stem and some extension, exactly if
the stem is no dots and the extension is `.s`. -/
private theorem target_eq_sibling_iff (proper : directory.Proper)
    (below : request.named directory ≠ .root)
    {ending : String} (short : ending.toList.length = 2) :
    request.target directory .assembly =
        (request.named directory).sibling (Path.stem (request.named directory).name ++ ending) ↔
      Path.stem (request.named directory).name ∉ [".", ".."] ∧ ending = ".s" := by
  -- The stem of a name that is not empty is a part of a path, or dots.
  have resolved : (request.named directory).Proper := proper.resolve _
  have base : request.base directory =
      (request.named directory).parent.resolve (Path.stem (request.named directory).name) := rfl
  have spoken := Path.stem_ne_empty (resolved.name below).filled
  have whole := Path.slash_not_mem_stem (resolved.name below).whole
  generalize Path.stem (request.named directory).name = stem at base spoken whole ⊢
  by_cases dots : stem ∈ [".", ".."]
  · -- Dots are followed, and no path is named by them, so the names of the two files differ.
    refine iff_of_false (fun same => ?_) (fun kept => kept.1 dots)
    have names := congrArg Path.name same
    rw [target_eq, Path.name_sibling, Path.name_sibling, ← String.toList_inj,
      String.toList_append, String.toList_append] at names
    have stems := (List.append_inj' names (by rw [short]; rfl)).1
    have apart := (resolved.parent.resolve stem).name_not_dots
    rw [← base, String.toList_inj.mp stems] at apart
    exact apart dots
  · -- Any other stem goes down from the directory, and stays the name of the file.
    have apart : stem ≠ "." ∧ stem ≠ ".." := by simpa using dots
    rw [Path.resolve_of_whole whole, Path.follow, if_neg (by simp [spoken, apart.1]),
      if_neg apart.2] at base
    have here : request.target directory .assembly =
        (request.named directory).sibling (stem ++ ".s") := by
      rw [target_eq, base]
      simp [Path.sibling, Path.parent, Path.name]
    rw [here]
    simp [Path.sibling, dots, eq_comm]

/-- What an output names ends in an extension of two characters, and is not the root. -/
private theorem named_output {path : String} (given : request.output = some path)
    (ends : EndsInAssembly path) : request.named directory ≠ .root ∧
      (Path.extension (request.named directory).name).toList.length = 2 := by
  -- The path has passed the test for its extension.
  have lower := (namesAssembly_iff path).mpr ends
  rw [namesAssembly, beq_iff_eq, ← String.toList_inj] at lower
  -- Lower case changes no length.
  have length : (Path.extension (Path.writtenName path)).toList.length = 2 := by
    have lengths := congrArg List.length lower
    change ((Path.extension (Path.writtenName path)).map Char.toLower).toList.length = 2 at lengths
    rwa [String.toList_map, List.length_map] at lengths
  have extended : Path.extension (Path.writtenName path) ≠ "" := by
    intro bare
    rw [bare] at length
    cases length
  have resolved := Path.name_resolve (Path.isName_writtenName extended) directory
  rw [named, given, Option.getD_some, resolved.2]
  exact ⟨resolved.1, length⟩

/-- The assembly is where it was asked for exactly if the path keeps its place. -/
private theorem target_eq_wanted_iff (proper : directory.Proper)
    (below : request.named directory ≠ .root)
    (ends : ∀ path, request.output = some path → EndsInAssembly path) :
    request.target directory .assembly = request.wanted directory ↔ request.Keeps directory := by
  -- Without an output, the assembly is asked for beside the entry.
  cases given : request.output with
  | none =>
    have beside : request.wanted directory = (request.named directory).sibling
        (Path.stem (request.named directory).name ++ ".s") := by
      simp only [wanted, named, given, Option.getD_none]
    rw [beside, target_eq_sibling_iff proper below rfl]
    constructor
    · intro kept
      exact ⟨kept.1, by simp [given]⟩
    · intro keeps
      exact ⟨keeps.stem, rfl⟩
  | some path =>
    -- The output itself is its stem with its own extension.
    have itself : request.wanted directory = (request.named directory).sibling
        (Path.stem (request.named directory).name ++
          Path.extension (request.named directory).name) := by
      rw [Path.stem_append_extension, Path.sibling_name below, wanted, given, named, given,
        Option.getD_some]
    rw [itself, target_eq_sibling_iff proper below (named_output given (ends path given)).2]
    constructor
    · intro kept
      exact ⟨kept.1, fun _ => kept.2⟩
    · intro keeps
      exact ⟨keeps.stem, keeps.lower (by rw [given]; rfl)⟩

/-- The assembly is written to a proper path. -/
private theorem proper_target (proper : directory.Proper) :
    (request.target directory .assembly).Proper := by
  -- The base is resolved twice, and each time it stays proper.
  have base : (request.base directory).Proper := (proper.resolve _).parent.resolve _
  rw [target_eq]
  exact base.sibling (Path.isName_assembly base.name_whole)

/-- The assembly is asked for at a proper path. -/
private theorem proper_wanted (proper : directory.Proper) : (request.wanted directory).Proper := by
  -- An output is resolved as it is, and beside an entry stands another name.
  cases given : request.output with
  | some path =>
    rw [wanted, given]
    exact proper.resolve path
  | none =>
    rw [wanted, given]
    have entry := proper.resolve request.entry
    exact entry.sibling (Path.isName_assembly (Path.slash_not_mem_stem entry.name_whole))

/-- Arguments that lead to artifacts name something below the root. -/
private theorem named_ne_root {tree : FileTree} {artifacts : List Artifact}
    (ends : ∀ path, request.output = some path → EndsInAssembly path)
    (made : request.compilation directory tree = ⟨[], artifacts⟩) :
    request.named directory ≠ .root := by
  -- An output has an extension, which the root has not.
  cases given : request.output with
  | some path => exact (named_output given (ends path given)).1
  | none =>
    -- The root is a directory, which cannot be read as an entry.
    intro top
    rw [named, given, Option.getD_none] at top
    have unread : tree.contents .root = .error (.refused .isDirectory .reading) := rfl
    rw [compilation, top, unread] at made
    cases made

end Request

/-- A run has put assembly at a path: the file there holds the text, and the path is shown. -/
structure Delivered (path : Path) (text : String) (report : Report) (after : FileTree) : Prop where
  held : after.fileAt path = some (Text.encode text)
  shown : report.output = path.text ++ "\n"

/-- A run that succeeds and is to write has written, as a request that its arguments spell. -/
private theorem written_of_success {version : String} {tree after : FileTree} {directory : Path}
    {arguments : List String} {report : Report}
    (ran : (run version access directory arguments).run tree = (report, after))
    (success : report.code = 0)
    (compiles : ¬ ReachesWord ["-h", "--help", "-V", "--version"] arguments)
    (writes : "-p" ∉ options arguments ∧ "--print" ∉ options arguments) :
    ∃ (request : Request) (groups : List Group) (artifacts : List Artifact) (text : String),
      request.SpelledBy arguments groups ∧
      request.compilation directory tree = ⟨[], artifacts⟩ ∧ ⟨.assembly, text⟩ ∈ artifacts ∧
      Delivered (request.target directory .assembly) text report after := by
  -- Arguments that succeed without help or version ask for a compilation.
  rw [reachesWord_iff_early, not_or] at compiles
  unfold run at ran
  cases asked : Invocation.ofArguments arguments with
  | error error =>
    rw [asked] at ran
    cases ran
    cases success
  | ok invocation =>
    cases invocation with
    | help => exact absurd asked compiles.1
    | version => exact absurd asked compiles.2
    | compile request =>
      obtain ⟨groups, spelled⟩ := Invocation.ofArguments_eq_compile_iff.mp asked
      have unprinted : ¬ request.print = true := by
        rw [(Invocation.askedBy_of_compile asked).print, not_or]
        exact writes
      obtain ⟨shown, left, same, ends, -⟩ := request.run_ends directory tree
      simp only [asked, same] at ran
      cases ran
      -- Of the ways in which a request ends only one succeeds without printing.
      cases ends with
      | rejected report => cases success
      | printed artifacts text print => exact absurd print unprinted
      | written artifacts after print made kinds held legible =>
        have listed := request.printed_mem kinds
        have file := held _ listed
        dsimp only at file
        exact ⟨request, groups, artifacts, _, spelled, made, listed, ⟨file, by dsimp only⟩⟩
      | unwritten => cases success

/-- The assembly goes where it is asked for, but for stems of dots, which are followed, and for an
extension in upper case, which is lowered. Every run that succeeds and neither prints nor shows help
or the version delivers the assembly of its entry. It delivers that to the output, or without one
beside the entry, exactly if the path keeps its place. -/
theorem assembly_goes_where_asked_iff {version : String} {tree after : FileTree}
    {directory : Path} {arguments : List String} {report : Report} (proper : directory.Proper)
    (ran : (run version access directory arguments).run tree = (report, after))
    (success : report.code = 0)
    (compiles : ¬ ReachesWord ["-h", "--help", "-V", "--version"] arguments)
    (writes : "-p" ∉ options arguments ∧ "--print" ∉ options arguments) :
    ∃ (request : Request) (groups : List Group) (text : String),
      request.SpelledBy arguments groups ∧
      ⟨.assembly, text⟩ ∈ (request.compilation directory tree).artifacts ∧
      Delivered (request.target directory .assembly) text report after ∧
      (Delivered (request.wanted directory) text report after ↔ request.Keeps directory) := by
  -- The run has written to the target, so the question is where that is.
  obtain ⟨request, groups, artifacts, text, spelled, made, listed, delivered⟩ :=
    written_of_success ran success compiles writes
  have below := Request.named_ne_root spelled.extension made
  refine ⟨request, groups, text, spelled, by rwa [made], delivered, ?_⟩
  rw [← Request.target_eq_wanted_iff proper below spelled.extension]
  constructor
  · intro elsewhere
    -- The path that is shown tells where the assembly has gone.
    have texts := elsewhere.shown
    rw [delivered.shown, String.append_left_inj] at texts
    exact Path.text_injective (Request.proper_target proper) (Request.proper_wanted proper) texts
  · intro same
    rwa [← same]

/-- Two entries that return a number, one of them with a dot for its stem. -/
def workshop : FileTree :=
  let program := Entry.file (Text.encode "fun main() \x7b return 7; \x7d")
  ⟨[(⟨["work"]⟩, .directory), (⟨["work", "main.dbl"]⟩, program),
    (⟨["work", "sub"]⟩, .directory), (⟨["work", "sub", "..dbl"]⟩, program)]⟩

/-- The last output counts, and slashes and dots in it are no obstacle. -/
theorem assembly_goes_to_last_output :
    ∃ report after,
      (run "0.1.0" access ⟨["work"]⟩ ["-o", "x.S", "--output=./sub//a..s/", "main.dbl"]).run
        workshop = (report, after) ∧ report.code = 0 ∧
      ∃ text, Delivered ⟨["work", "sub", "a..s"]⟩ text report after := by
  -- The tree is small enough for the run to be followed.
  have success : ((run "0.1.0" access ⟨["work"]⟩
      ["-o", "x.S", "--output=./sub//a..s/", "main.dbl"]).run workshop).1.code = 0 := by
    decide +kernel
  have asked : Invocation.ofArguments ["-o", "x.S", "--output=./sub//a..s/", "main.dbl"] =
      .ok (.compile ⟨"main.dbl", some "./sub//a..s/", false, false, .lf⟩) := by decide +kernel
  have proper : Path.Proper ⟨["work"]⟩ := by
    intro part member
    rw [List.mem_singleton.mp member]
    exact ⟨by decide, by decide, by decide, by decide⟩
  have compiles : ¬ ReachesWord ["-h", "--help", "-V", "--version"]
      ["-o", "x.S", "--output=./sub//a..s/", "main.dbl"] := by
    rw [reachesWord_iff_early, asked]
    simp
  obtain ⟨request, groups, text, spelled, -, -, delivered⟩ :=
    assembly_goes_where_asked_iff proper rfl success compiles (by decide)
  -- Arguments spell one request alone.
  have spelling := Invocation.ofArguments_eq_compile_iff.mpr ⟨groups, spelled⟩
  rw [asked] at spelling
  cases spelling
  exact ⟨_, _, rfl, success, text, delivered.mpr ⟨by decide, fun _ => by decide⟩⟩

/-- Dots for a stem are followed, so that the file is named like the directory it was asked for in;
and an output in upper case is not the one that is written. -/
theorem assembly_goes_elsewhere :
    let directory : Path := ⟨["work"]⟩
    let dots := (run "0.1.0" access directory ["-o", "sub/..s", "main.dbl"]).run workshop
    let entry := (run "0.1.0" access directory ["sub/..dbl"]).run workshop
    let upper := (run "0.1.0" access directory ["-o", "OUT.S", "main.dbl"]).run workshop
    (dots.1 = { code := 0, output := "/work/sub.s\n" } ∧
      (directory.resolve "sub/..s").text = "/work/sub/..s" ∧
      dots.2.fileAt (directory.resolve "sub/..s") = none) ∧
    (entry.1 = { code := 0, output := "/work/sub.s\n" } ∧
      (directory.resolve "sub/..dbl").parent.text = "/work/sub" ∧
      entry.2.fileAt (directory.resolve "sub/..s") = none) ∧
    upper.1 = { code := 0, output := "/work/OUT.s\n" } ∧
      (directory.resolve "OUT.S").text = "/work/OUT.S" ∧
      upper.2.fileAt (directory.resolve "OUT.S") = none := by
  intro directory dots entry upper
  exact ⟨by decide +kernel, by decide +kernel, by decide +kernel⟩

end DoubleLang.Command
