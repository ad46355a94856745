import DoubleLang.Command.Run
import DoubleLang.Proofs.Command.Arguments
import DoubleLang.Proofs.Compilation.Outcome
import DoubleLang.Proofs.File.Tree
import DoubleLang.Proofs.Text.Utf8

/-!
What a run of the command line shows, and which files it changes.

A run that compiles ends in one of four ways: with the one error of the compilation, with the
assembly printed, with every artifact in its file, or with a complaint about an artifact that could
not be written. Only the last two touch the tree, and there only the files of the artifacts.
-/

namespace DoubleLang.Command

open FileTree

namespace Request

/-- What the entry file is compiled to, or the report that it cannot be read. -/
def compilation (request : Request) (directory : Path) (tree : FileTree) : Compilation :=
  let path := directory.resolve request.entry
  match tree.contents path with
  | .ok bytes => .ofText (Text.decode bytes) ⟨true, request.map, request.ending⟩ {} path.text
  | .error failure => ⟨[Compilation.unreadable path failure], []⟩

/-- The kinds of the artifacts that are asked for. -/
def kinds (request : Request) : List Artifact.Kind :=
  .assembly :: if request.map then [.map] else []

/-- The path that an artifact is written to. -/
def target (request : Request) (directory : Path) (kind : Artifact.Kind) : Path :=
  (request.base directory).extend (suffix kind)

/-- The paths that artifacts are written to. -/
def targets (request : Request) (directory : Path) : List Path :=
  request.kinds.map (request.target directory)

/-- How a run of a request on a tree may end: with a report and a tree. -/
inductive Ends (request : Request) (directory : Path) (tree : FileTree) :
    Report → FileTree → Prop where
  /-- The one error of the compilation is shown. -/
  | rejected (report : Diagnostic) (error : report.severity = .error)
      (made : request.compilation directory tree = ⟨[report], []⟩) :
      Ends request directory tree { code := 1, errors := report.render } tree
  /-- The text of the assembly is printed. -/
  | printed (artifacts : List Artifact) (text : String) (print : request.print = true)
      (made : request.compilation directory tree = ⟨[], artifacts⟩)
      (kinds : artifacts.map Artifact.kind = request.kinds)
      (assembly : ⟨.assembly, text⟩ ∈ artifacts) :
      Ends request directory tree { code := 0, output := text } tree
  /-- Every artifact is held by its file, where it can be read back, and the path of the assembly is
  shown. -/
  | written (artifacts : List Artifact) (after : FileTree) (print : request.print = false)
      (made : request.compilation directory tree = ⟨[], artifacts⟩)
      (kinds : artifacts.map Artifact.kind = request.kinds)
      (held : ∀ artifact ∈ artifacts,
        after.fileAt (request.target directory artifact.kind) = some (Text.encode artifact.text))
      (legible : ∀ artifact ∈ artifacts,
        (after.fileAt (request.target directory artifact.kind)).map Text.decode =
          some artifact.text) :
      Ends request directory tree
        { code := 0, output := (request.target directory .assembly).text ++ "\n" } after
  /-- An artifact cannot be written, for something is in its way. -/
  | unwritten (artifacts : List Artifact) (after : FileTree) (failure : Failure)
      (print : request.print = false)
      (made : request.compilation directory tree = ⟨[], artifacts⟩)
      (blocked : ¬ ∀ path ∈ request.targets directory, tree.Clear path) :
      Ends request directory tree
        { code := 1, errors := "dblc: " ++ failure.message ++ "\n" } after

end Request

/-- The kind of an artifact shows in its extension. -/
private theorem suffix_injective : Function.Injective suffix := by
  intro first second same
  cases first <;> cases second <;> first | rfl | simp [suffix] at same

/-- Work that follows other work starts with what that gives and leaves. -/
private theorem run_bind {α β : Type} {first : StateM FileTree α} {later : α → StateM FileTree β}
    {tree between : FileTree} {value : α} (done : first.run tree = (value, between)) :
    (first >>= later).run tree = (later value).run between := by
  rw [StateT.run_bind, done]
  rfl

/-- What several writes come to: the first failure, if there is one. -/
def settle (outcomes : List (Except Failure Unit)) : Except Failure Unit :=
  outcomes.foldr (fun outcome rest => outcome.bind fun _ => rest) (.ok ())

/-- The path of an artifact beside a base. -/
def beside (base : Path) (artifact : Artifact) : Path :=
  base.extend (suffix artifact.kind)

/-- What writes of artifacts beside a base do to a tree. -/
structure Writes (base : Path) (artifacts : List Artifact) (tree : FileTree)
    (outcomes : List (Except Failure Unit)) (after : FileTree) : Prop where
  others : SameFilesBut (artifacts.map (beside base)) tree after
  held : settle outcomes = .ok () → ∀ artifact ∈ artifacts,
    after.fileAt (beside base artifact) = some (Text.encode artifact.text)
  /-- In a directory that is there nothing fails if nothing is in the way. -/
  free : tree.Open base.parent → (∀ artifact ∈ artifacts, tree.Clear (beside base artifact)) →
    settle outcomes = .ok ()

namespace Writes

variable {base : Path} {artifact : Artifact} {rest : List Artifact} {tree after : FileTree}
  {outcomes : List (Except Failure Unit)}

/-- An artifact is written to the directory of its base. -/
private theorem parent_beside (base : Path) (artifact : Artifact) :
    (beside base artifact).parent = base.parent :=
  Path.parent_extend base _

/-- An artifact is written one part deeper than that directory. -/
private theorem deeper_beside (base : Path) (artifact : Artifact) :
    base.parent.parts.length < (beside base artifact).parts.length := by
  rw [beside, Path.length_extend]
  omega

/-- Artifacts of different kinds are written to different paths. -/
private theorem beside_not_mem (apart : artifact.kind ∉ rest.map Artifact.kind) :
    beside base artifact ∉ rest.map (beside base) := by
  -- A path of the same ending is one of the same kind.
  intro member
  obtain ⟨other, listed, same⟩ := List.mem_map.mp member
  have kinds : other.kind = artifact.kind := suffix_injective (Path.extend_inj.mp same)
  exact apart (kinds ▸ List.mem_map_of_mem listed)

/-- One more artifact in front that is written. -/
private theorem cons_written (apart : artifact.kind ∉ rest.map Artifact.kind)
    (later : Writes base rest
      (tree.put (beside base artifact) (.file (Text.encode artifact.text))) outcomes after) :
    Writes base (artifact :: rest) tree (.ok () :: outcomes) after := by
  -- No later artifact goes to the same path.
  have below : beside base artifact ≠ .root := Path.extend_ne_root base _
  have lonely : beside base artifact ∉ rest.map (beside base) := beside_not_mem apart
  refine ⟨?_, ?_, ?_⟩
  · have first := (sameFilesBut_put tree (beside base artifact)
      (.file (Text.encode artifact.text))).mono
      (List.cons_subset_cons _ (List.nil_subset (rest.map (beside base))))
    exact first.trans (later.others.mono (List.subset_cons_self _ _))
  · intro settled other member
    rcases List.mem_cons.mp member with rfl | listed
    · -- The later artifacts leave the file alone.
      rw [later.others _ lonely, fileAt_put_self tree _ below]
    · exact later.held settled other listed
  · intro down clear
    -- The directory is still there, and the other artifacts have other places.
    have still := down.put_deeper (deeper_beside base artifact) (.file (Text.encode artifact.text))
    refine later.free still fun other listed => ?_
    have differ : beside base other ≠ beside base artifact := by
      intro same
      exact lonely (same ▸ List.mem_map_of_mem listed)
    refine (clear other (List.mem_cons_of_mem _ listed)).transfer ?_
      (lookup_put_of_ne tree _ differ)
    rw [parent_beside]
    exact still

/-- One more artifact in front that cannot be written. -/
private theorem cons_failed {failure : Failure}
    (failed : (access.write (beside base artifact) (Text.encode artifact.text)).run tree =
      (.error failure, tree))
    (later : Writes base rest tree outcomes after) :
    Writes base (artifact :: rest) tree (.error failure :: outcomes) after := by
  -- A failure leaves the tree as it is, so the rest starts from there.
  have below : beside base artifact ≠ .root := Path.extend_ne_root base _
  refine ⟨later.others.mono (List.subset_cons_self _ _), ?_, ?_⟩
  · intro settled
    cases settled
  · -- A clear file in a directory that is there would have been written.
    intro down clear
    have here : tree.Open (beside base artifact).parent := by
      rw [parent_beside]
      exact down
    have written := (clear artifact List.mem_cons_self).run_write below here
      (Text.encode artifact.text)
    rw [failed] at written
    cases written

end Writes

/-- Artifacts of different kinds are written beside a base. -/
private theorem run_writes (base : Path) (artifacts : List Artifact)
    (apart : (artifacts.map Artifact.kind).Nodup) (tree : FileTree) :
    ∃ outcomes after,
      (artifacts.mapM fun artifact =>
        access.write (beside base artifact) (Text.encode artifact.text)).run tree =
          (outcomes, after) ∧
      Writes base artifacts tree outcomes after := by
  -- Each artifact starts from the tree that the one before it leaves, written or not.
  induction artifacts generalizing tree with
  | nil => exact ⟨[], tree, rfl, .refl _ tree, by simp, fun _ _ => rfl⟩
  | cons artifact rest ih =>
    rw [List.map_cons, List.nodup_cons] at apart
    rcases run_write tree (beside base artifact) (Text.encode artifact.text) with
        written | ⟨failure, failed⟩
    · obtain ⟨outcomes, after, ran, later⟩ := ih apart.2 _
      refine ⟨.ok () :: outcomes, after, ?_, later.cons_written apart.1⟩
      rw [List.mapM_cons, run_bind written, run_bind ran]
      rfl
    · obtain ⟨outcomes, after, ran, later⟩ := ih apart.2 _
      refine ⟨.error failure :: outcomes, after, ?_, later.cons_failed failed⟩
      rw [List.mapM_cons, run_bind failed, run_bind ran]
      rfl

/-- Artifacts of different kinds are written, and their directory is made before. -/
theorem run_writeAll (base : Path) {artifacts : List Artifact}
    (apart : (artifacts.map Artifact.kind).Nodup) (filled : artifacts ≠ []) (tree : FileTree) :
    ∃ outcome after, (writeAll access base artifacts).run tree = (outcome, after) ∧
      SameFilesBut (artifacts.map (beside base)) tree after ∧
      (outcome = .ok () → ∀ artifact ∈ artifacts,
        after.fileAt (beside base artifact) = some (Text.encode artifact.text)) ∧
      ((∀ artifact ∈ artifacts, tree.Clear (beside base artifact)) → outcome = .ok ()) := by
  -- Making the directory changes no file, whether it succeeds or not.
  have same := run_makeDirectories tree base.parent
  -- A clear place says that the directory above it can be made.
  have free (clear : ∀ artifact ∈ artifacts, tree.Clear (beside base artifact)) :
      ∃ after, (access.makeDirectories base.parent).run tree = (.ok (), after) ∧
        after.Open base.parent ∧
        ∀ artifact ∈ artifacts, after.lookup (beside base artifact) =
          tree.lookup (beside base artifact) := by
    obtain ⟨first, rest, rfl⟩ := List.exists_cons_of_ne_nil filled
    have below : beside base first ≠ .root := Path.extend_ne_root base _
    obtain ⟨after, made, down, kept⟩ :=
      (clear first List.mem_cons_self).run_makeDirectories below
    rw [Writes.parent_beside] at made down kept
    exact ⟨after, made, down, fun artifact _ => kept _ (Writes.deeper_beside base artifact)⟩
  rcases ran : (access.makeDirectories base.parent).run tree with ⟨made, between⟩
  rw [ran] at same
  have before := same.mono (List.nil_subset (artifacts.map (beside base)))
  cases made with
  | error failure =>
    -- Nothing is written without the directory.
    refine ⟨.error failure, between, ?_, before, ?_, ?_⟩
    · rw [writeAll, run_bind ran]
      rfl
    · intro settled
      cases settled
    · intro clear
      obtain ⟨after, made, -⟩ := free clear
      rw [ran] at made
      cases made
  | ok =>
    obtain ⟨outcomes, after, wrote, writes⟩ := run_writes base artifacts apart between
    refine ⟨settle outcomes, after, ?_, before.trans writes.others, writes.held, ?_⟩
    · rw [writeAll, run_bind ran]
      exact run_bind wrote
    · intro clear
      -- The way that was clear before is open now, and the places are as they were.
      obtain ⟨found, made, down, kept⟩ := free clear
      rw [ran, Prod.mk.injEq] at made
      obtain ⟨-, rfl⟩ := made
      refine writes.free down fun artifact member => ?_
      refine (clear artifact member).transfer ?_ (kept artifact member)
      rw [Writes.parent_beside]
      exact down

namespace Request

variable (request : Request) (directory : Path) (tree : FileTree)

/-- A compilation from a tree reads its entry file and changes nothing. -/
private theorem run_ofFile :
    (Compilation.ofFile access directory request.entry ⟨true, request.map, request.ending⟩ {}).run
      tree = (request.compilation directory tree, tree) := by
  -- The contents of the entry file decide, and reading leaves the tree alone.
  rw [Compilation.ofFile, run_bind (run_read tree _), compilation]
  cases tree.contents (directory.resolve request.entry) with
  | ok bytes => rfl
  | error failure => rfl

/-- The entry file gives one error, or every artifact that is asked for. -/
private theorem compilation_cases :
    (∃ report, report.severity = .error ∧
      request.compilation directory tree = ⟨[report], []⟩) ∨
    ∃ artifacts, request.compilation directory tree = ⟨[], artifacts⟩ ∧
      artifacts.map Artifact.kind = request.kinds := by
  -- A file that cannot be read is an error of its own.
  simp only [compilation]
  cases tree.contents (directory.resolve request.entry) with
  | error failure => exact .inl ⟨_, rfl, rfl⟩
  | ok bytes =>
    rcases Compilation.ofText_cases (Text.decode bytes) ⟨true, request.map, request.ending⟩ {}
        (directory.resolve request.entry).text with ⟨report, error, made⟩ | ⟨object, -, delivers⟩
    · exact .inl ⟨report, error, made⟩
    · -- There is a writer for the map, so nothing is warned of.
      have silent := delivers.diagnostics
      simp only [Option.isNone_some, Bool.and_false, Bool.false_eq_true, if_false] at silent
      refine .inr ⟨Compilation.requested object ⟨true, request.map, request.ending⟩ {}, ?_, ?_⟩
      · rw [← silent, ← delivers.artifacts]
      · cases asked : request.map <;> simp [Compilation.requested, kinds, asked]

/-- What is printed of the artifacts of a request is the text of the assembly. -/
theorem printed_mem {artifacts : List Artifact}
    (known : artifacts.map Artifact.kind = request.kinds) :
    ⟨.assembly, printed artifacts⟩ ∈ artifacts := by
  -- The kinds are known, so there is a first artifact.
  obtain ⟨⟨kind, text⟩, others, rfl, first, more⟩ := List.map_eq_cons_iff.mp known
  -- The assembly comes first, and no artifact behind it is another one.
  have single : others.filter (·.kind = .assembly) = [] := by
    rw [List.filter_eq_nil_iff]
    intro other member
    have listed : other.kind ∈ if request.map then [Artifact.Kind.map] else [] := by
      rw [← more]
      exact List.mem_map_of_mem member
    cases asked : request.map <;> simp_all
  have whole : printed (⟨kind, text⟩ :: others) = text := by
    rw [printed, List.filter_cons_of_pos (by simpa using first), single]
    simp
  rw [whole, ← first]
  exact List.mem_cons_self

section Run

variable {request directory tree}

/-- After an error there is nothing but its report. -/
private theorem run_of_error {report : Diagnostic} (error : report.severity = .error)
    (made : request.compilation directory tree = ⟨[report], []⟩) :
    (request.run access directory).run tree = ({ code := 1, errors := report.render }, tree) := by
  -- One report is the whole log, and it is an error.
  have failed : Diagnostic.anyError [report] = true := by simp [Diagnostic.anyError, error]
  have log : String.join ([report].map Diagnostic.render) = report.render := by simp
  rw [Request.run, run_bind (request.run_ofFile directory tree), made]
  simp only [failed, log, if_true]
  rfl

/-- Without an error the assembly is printed if that is asked for. -/
private theorem run_of_print {artifacts : List Artifact} (print : request.print = true)
    (made : request.compilation directory tree = ⟨[], artifacts⟩) :
    (request.run access directory).run tree =
      ({ code := 0, output := printed artifacts }, tree) := by
  -- There is nothing in the log, and printing touches no file.
  rw [Request.run, run_bind (request.run_ofFile directory tree), made]
  simp only [print, if_true]
  rfl

/-- Without an error the artifacts are written if printing is not asked for. -/
private theorem run_of_write {artifacts : List Artifact} {outcome : Except Failure Unit}
    {after : FileTree}
    (print : request.print = false)
    (made : request.compilation directory tree = ⟨[], artifacts⟩)
    (ran : (writeAll access (request.base directory) artifacts).run tree = (outcome, after)) :
    (request.run access directory).run tree =
      (match outcome with
        | .ok () => { code := 0, output := (request.target directory .assembly).text ++ "\n" }
        | .error failure => { code := 1, errors := "dblc: " ++ failure.message ++ "\n" },
        after) := by
  -- There is nothing in the log, so the writing decides how the run ends.
  have quiet : Diagnostic.anyError [] = false := rfl
  have log : String.join (List.map Diagnostic.render []) = "" := rfl
  rw [Request.run, run_bind (request.run_ofFile directory tree), made]
  simp only [quiet, log, print, Bool.false_eq_true, if_false, String.empty_append]
  rw [run_bind ran]
  cases outcome with
  | ok => rfl
  | error failure => rfl

end Run

/-- A run of a request ends in one of its ways and changes no file but its targets. -/
theorem run_ends :
    ∃ report after, (request.run access directory).run tree = (report, after) ∧
      request.Ends directory tree report after ∧
      SameFilesBut (request.targets directory) tree after := by
  -- The compilation fails, or its artifacts are printed or written.
  rcases request.compilation_cases directory tree with ⟨report, error, made⟩ |
      ⟨artifacts, made, known⟩
  · exact ⟨_, tree, run_of_error error made, .rejected report error made, .refl _ tree⟩
  · cases print : request.print with
    | true =>
      have text := request.printed_mem known
      exact ⟨_, tree, run_of_print print made, .printed artifacts _ print made known text,
        .refl _ tree⟩
    | false =>
      -- The artifacts are of different kinds, and the assembly is always one of them.
      have apart : (artifacts.map Artifact.kind).Nodup := by
        rw [known, kinds]
        split <;> decide
      have filled : artifacts ≠ [] := by
        intro empty
        simp [empty, kinds] at known
      have places : artifacts.map (beside (request.base directory)) =
          request.targets directory := by
        rw [targets, ← known, List.map_map]
        rfl
      obtain ⟨outcome, after, ran, same, held, free⟩ :=
        run_writeAll (request.base directory) apart filled tree
      rw [places] at same
      refine ⟨_, after, run_of_write print made ran, ?_, same⟩
      cases outcome with
      | ok =>
        refine .written artifacts after print made known (held rfl) ?_
        -- What stands in the file is read as it was written.
        intro artifact listed
        have file : after.fileAt (request.target directory artifact.kind) = _ :=
          held rfl artifact listed
        rw [file, Option.map_some, Text.decode_encode]
      | error failure =>
        -- Clear places would have let all artifacts through.
        have blocked : ¬ ∀ path ∈ request.targets directory, tree.Clear path := by
          intro clear
          rw [← places, List.forall_mem_map] at clear
          cases free clear
        exact .unwritten artifacts after failure print made blocked

end Request

end DoubleLang.Command
