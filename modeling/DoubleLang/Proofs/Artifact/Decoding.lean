import DoubleLang.Artifact
import DoubleLang.Proofs.Machine.Reading

/-!
The object behind an assembly and a map.

Both texts are read line by line. In the assembly an empty line ends each function, and one more
ends them all. The assembly alone has the code, the map alone has the arities, the frame sizes and
the origins, and the names and values that stand in both have to agree.
-/

namespace DoubleLang

namespace Text

/-- A line without the return that may end it. -/
def withoutReturn (line : List Char) : List Char :=
  if line.getLast? = some '\r' then line.dropLast else line

/-- The lines of a text, whichever way they are ended. -/
def lines (text : List Char) : List (List Char) :=
  -- What follows the last feed is no line.
  (text.splitOn '\n').dropLast.map withoutReturn

/-- A text without the characters that end lines. -/
def OneLine (line : List Char) : Prop :=
  '\n' ∉ line ∧ '\r' ∉ line

instance (line : List Char) : Decidable (OneLine line) :=
  inferInstanceAs (Decidable (_ ∧ _))

/-- Two texts are on one line if each of them is. -/
private theorem oneLine_append {first second : List Char} :
    OneLine (first ++ second) ↔ OneLine first ∧ OneLine second := by
  simp only [OneLine, List.mem_append]
  tauto

/-- A solid text is on one line. -/
private theorem Solid.oneLine {text : List Char} (solid : Solid text) : OneLine text :=
  ⟨solid.not_mem, solid.not_mem⟩

/-- The first line of a text ends at the first feed. -/
private theorem lines_cons {line : List Char} (apart : '\n' ∉ line) (rest : List Char) :
    lines (line ++ '\n' :: rest) = withoutReturn line :: lines rest := by
  -- No character of the line divides it.
  have others : ∀ c ∈ line, (c == '\n') = false := by
    intro c member
    rw [beq_eq_false_iff_ne]
    exact ne_of_mem_of_not_mem member apart
  have first := List.splitOnP_append_cons_of_forall_mem others '\n' (by decide) rest
  rw [← List.splitOn_eq_splitOnP, ← List.splitOn_eq_splitOnP] at first
  rw [lines, first, List.dropLast_cons_of_ne_nil (List.splitOn_ne_nil _ _), List.map_cons, lines]

/-- A line in front of a text is read back, whichever way it is ended. -/
private theorem lines_ended {line : List Char} (single : OneLine line) (ending : LineEnding)
    (rest : List Char) : lines (line ++ (ending.text.toList ++ rest)) = line :: lines rest := by
  -- Reading takes off a return in front of a feed, whoever has put it there.
  obtain ⟨noFeed, noReturn⟩ := single
  cases ending with
  | lf =>
    -- The line ends in no return of its own that could be taken off.
    have kept : withoutReturn line = line := by
      refine if_neg fun last => noReturn ?_
      exact List.mem_of_getLast? last
    exact (lines_cons noFeed rest).trans (by rw [kept])
  | crlf =>
    -- The return belongs to the ending, and is taken off with it.
    have dropped : withoutReturn (line ++ ['\r']) = line := by simp [withoutReturn]
    have apart : '\n' ∉ line ++ ['\r'] := by simpa using noFeed
    simpa [LineEnding.text, dropped] using lines_cons apart rest

/-- Joined lines are read back, whichever way they are ended. -/
private theorem lines_join (ending : LineEnding) {lines : List String}
    (single : ∀ line ∈ lines, OneLine line.toList) :
    Text.lines (ending.join lines).toList = lines.map String.toList := by
  -- Every line takes its own ending along, the last one too.
  induction lines with
  | nil => rfl
  | cons line rest ih =>
    have later := ih fun other member => single other (List.mem_cons_of_mem _ member)
    have joined : (ending.join (line :: rest)).toList =
        line.toList ++ (ending.text.toList ++ (ending.join rest).toList) := by
      simp [LineEnding.join]
    rw [joined, lines_ended (single line List.mem_cons_self), later, List.map_cons]

end Text

/-- What a line of assembly says. -/
inductive AssemblyLine where
  | blank
  | head (name : String)
  | code (instruction : Instruction)
  | datum (name value : String)
  deriving DecidableEq, Repr

/-- The text of a line of assembly. -/
def AssemblyLine.text : AssemblyLine → String
  | .blank => ""
  | .head name => name ++ ":"
  | .code instruction => instruction.line
  | .datum name value => name ++ ": .double " ++ value

/-- The names in a line are identifiers, and its value is a number. -/
def AssemblyLine.Lexical : AssemblyLine → Prop
  | .blank => True
  | .head name => Piece.isIdentifierText name.toList = true
  | .code instruction => ∀ operand ∈ instruction.operands, operand.Identified
  | .datum name value => Piece.isIdentifierText name.toList = true ∧ IsNumeral value

/-- What the lines of a function in assembly say. -/
def Routine.assembled (routine : Routine) : List AssemblyLine :=
  .head routine.name :: routine.instructions.map .code ++ [.blank]

/-- What the lines of the assembly say behind its head. -/
def Object.assembled (object : Object) : List AssemblyLine :=
  object.routines.flatMap Routine.assembled ++
    .blank :: object.data.map fun datum => .datum datum.name datum.value

/-- The assembly is a head and the lines of the functions and the data. -/
private theorem Object.assemblyLines_eq (object : Object) :
    object.assemblyLines =
      [".section .text", ".globl main", ""] ++ object.assembled.map AssemblyLine.text := by
  -- Functions are written one by one, and each of their lines is one of assembly.
  have functions : object.routines.flatMap Routine.lines =
      (object.routines.flatMap Routine.assembled).map AssemblyLine.text := by
    rw [List.map_flatMap]
    congr 1
    funext routine
    simp [Routine.lines, Routine.assembled, AssemblyLine.text, Function.comp_def]
  simp [assemblyLines, assembled, functions, AssemblyLine.text, Function.comp_def]

namespace AssemblyLine

/-- Reads a line of assembly: code is indented, and a colon follows any name in front. -/
def read? (line : List Char) : Option AssemblyLine :=
  if line = [] then some .blank
  else if line.head? = some ' ' then (Instruction.read? line).map .code
  else do
    let (name, rest) ← Text.cut? ":" line
    if rest = [] then return .head name
    else return .datum name (String.ofList (← Text.behind? " .double " rest))

mutual

/-- The functions by name and code up to the empty line behind them all, and the lines left. -/
def functions? : List AssemblyLine → Option (List (String × List Instruction) × List AssemblyLine)
  | .blank :: rest => some ([], rest)
  | .head name :: rest => do
    let (own, functions, left) ← code? rest
    return ((name, own) :: functions, left)
  | _ => none

/-- The code up to the next empty line, and the functions and lines behind it. -/
def code? : List AssemblyLine →
    Option (List Instruction × List (String × List Instruction) × List AssemblyLine)
  | .code instruction :: rest => do
    let (own, functions, left) ← code? rest
    return (instruction :: own, functions, left)
  | .blank :: rest => do
    let (functions, left) ← functions? rest
    return ([], functions, left)
  | _ => none

end

/-- The name and the value that a line has for a piece of data. -/
def datum? : AssemblyLine → Option (String × String)
  | .datum name value => some (name, value)
  | _ => none

/-- Code is divided from the functions behind it. -/
private theorem code?_append (instructions : List Instruction) (rest : List AssemblyLine) :
    code? (instructions.map .code ++ .blank :: rest) =
      (functions? rest).map fun (functions, left) => (instructions, functions, left) := by
  -- Code goes on up to the empty line, where the next function may start.
  induction instructions with
  | nil => cases found : functions? rest <;> simp [code?, found]
  | cons instruction later ih =>
    cases found : functions? rest <;> simp [code?, ih, found]

/-- Functions are divided from each other and from what is behind them. -/
private theorem functions?_append (routines : List Routine) (rest : List AssemblyLine) :
    functions? (routines.flatMap Routine.assembled ++ .blank :: rest) =
      some (routines.map fun routine => (routine.name, routine.instructions), rest) := by
  -- An empty line where a head could stand ends the functions.
  induction routines with
  | nil => rfl
  | cons routine later ih =>
    simp [Routine.assembled, functions?, code?_append, ih]

end AssemblyLine

/-- The functions by name and code and the data by name and value in an assembly. -/
def Object.readAssembly? (text : String) :
    Option (List (String × List Instruction) × List (String × String)) := do
  let body ← (Text.lines text.toList).dropPrefix?
    ([".section .text", ".globl main", ""].map String.toList)
  let (functions, left) ← AssemblyLine.functions? (← body.mapM AssemblyLine.read?)
  return (functions, ← left.mapM AssemblyLine.datum?)

/-- Reads the line of a function in a map, which has nothing of its code. -/
def Routine.readOutline? (line : List Char) : Option Routine := do
  let text ← Text.behind? "func " line
  let (name, text) ← Text.cut? " arity=" text
  let (arity, text) ← Text.cut? " frame=" text
  return ⟨name, Text.digitsValue 10 arity.toList, ← Text.signedHex? text, []⟩

/-- Reads where a piece of data comes from. -/
def Origin.read? (text : List Char) : Option Origin :=
  if text = "const".toList then some .constant
  else (Text.behind? "pool " text).map fun function => .pool (String.ofList function)

/-- Reads the line of a piece of data in a map. -/
def Datum.read? (line : List Char) : Option Datum := do
  let text ← Text.behind? "data " line
  let (name, text) ← Text.cut? " = " text
  let (value, text) ← Text.cut? " (" text
  return ⟨name, value, ← Origin.read? text.dropLast⟩

/-- The functions without their code and the data in a map. -/
def Object.readMap? (text : String) : Option (List Routine × List Datum) := do
  let body ← (Text.lines text.toList).dropPrefix?
    (["; dblc symbol map", "", "; functions:"].map String.toList)
  let left ← (body.dropWhile (· ≠ [])).dropPrefix? (["", "; data:"].map String.toList)
  return (← (body.takeWhile (· ≠ [])).mapM Routine.readOutline?, ← left.mapM Datum.read?)

/-- The object that an assembly and a map are the texts of, if they agree on names and values. -/
def Object.decode? (assembly map : String) : Option Object := do
  let (functions, values) ← Object.readAssembly? assembly
  let (outlines, data) ← Object.readMap? map
  if outlines.map Routine.name = functions.map Prod.fst ∧
      data.map (fun datum => (datum.name, datum.value)) = values then
    return ⟨List.zipWith (fun outline function => { outline with instructions := function.2 })
      outlines functions, data⟩
  else none

/-- The names that an origin holds. -/
def Origin.names : Origin → List String
  | .constant => []
  | .pool function => [function]

/-- The names in an object are identifiers, and its values are numbers. -/
structure Object.Lexical (object : Object) : Prop where
  functions : ∀ routine ∈ object.routines, Piece.isIdentifierText routine.name.toList = true
  operands : ∀ routine ∈ object.routines, ∀ instruction ∈ routine.instructions,
    ∀ operand ∈ instruction.operands, operand.Identified
  data : ∀ datum ∈ object.data, Piece.isIdentifierText datum.name.toList = true
  values : ∀ datum ∈ object.data, IsNumeral datum.value
  origins : ∀ datum ∈ object.data, ∀ name ∈ datum.origin.names,
    Piece.isIdentifierText name.toList = true

namespace AssemblyLine

/-- A name in front of a line is read up to its colon. -/
private theorem read?_named {name : String} (named : Piece.isIdentifierText name.toList = true)
    (rest : List Char) :
    read? (name.toList ++ (":".toList ++ rest)) =
      if rest = [] then some (.head name)
      else (Text.behind? " .double " rest).map fun value => .datum name (String.ofList value) := by
  have solid := Text.solid_of_isIdentifierText named
  -- The line starts with a character of the name, and no name starts with a space.
  have front : (name.toList ++ (":".toList ++ rest)).head? ≠ some ' ' := by
    cases starts : name.toList with
    | nil => simp
    | cons c more =>
      have letter := (Text.solid_cons.mp (starts ▸ solid)).1
      simp only [List.cons_append, List.head?_cons, ne_eq, Option.some.injEq]
      rintro rfl
      cases letter
  have filled : name.toList ++ (":".toList ++ rest) ≠ [] := by simp
  rw [read?, if_neg filled, if_neg front, Text.cut?_append solid]
  -- Behind the colon stands nothing, or a value.
  by_cases ends : rest = []
  · simp [ends]
  · cases found : Text.behind? " .double " rest <;> simp [ends, found]

/-- A line of assembly is read back from its text. -/
theorem Lexical.read?_text {line : AssemblyLine} (lexical : line.Lexical) :
    read? line.text.toList = some line := by
  -- The start of a line tells what is on it.
  cases line with
  | blank => rfl
  | head name => simpa [text] using read?_named lexical []
  | code instruction =>
    -- The indent tells an instruction from a name.
    have indented : instruction.line.toList.head? = some ' ' := by
      unfold Instruction.line instructionLine
      split <;> simp
    have filled : instruction.line.toList ≠ [] := by
      intro empty
      simp [empty] at indented
    rw [text, read?, if_neg filled, if_pos indented, Instruction.read?_line lexical,
      Option.map_some]
  | datum name value =>
    have whole := read?_named lexical.1 (" .double ".toList ++ value.toList)
    rw [Text.behind?_append] at whole
    simpa [text] using whole

/-- A line of assembly holds no line ending. -/
private theorem Lexical.oneLine_text {line : AssemblyLine} (lexical : line.Lexical) :
    Text.OneLine line.text.toList := by
  -- A line is put together from words without blanks and fixed marks.
  cases line with
  | blank => decide
  | head name =>
    rw [text, String.toList_append, Text.oneLine_append]
    exact ⟨(Text.solid_of_isIdentifierText lexical).oneLine, by decide⟩
  | code instruction => exact ⟨Instruction.not_mem_line lexical, Instruction.not_mem_line lexical⟩
  | datum name value =>
    simp only [text, String.toList_append, Text.oneLine_append]
    exact ⟨⟨(Text.solid_of_isIdentifierText lexical.1).oneLine, by decide⟩,
      (Text.solid_of_isNumeral lexical.2).oneLine⟩

end AssemblyLine

/-- An arity is written in digits. -/
private theorem Routine.solid_arity (routine : Routine) :
    Text.Solid (toString routine.arity).toList := by
  simpa using Text.solid_toDigits (by decide) (by decide) routine.arity

/-- A function is read back from its line in a map, but for its code. -/
private theorem Routine.readOutline?_line {routine : Routine}
    (named : Piece.isIdentifierText routine.name.toList = true) :
    Routine.readOutline? ("func " ++ routine.name ++ " arity=" ++ toString routine.arity ++
      " frame=" ++ Text.signedHex routine.frameSize).toList =
        some { routine with instructions := [] } := by
  -- The arity is written in its digits.
  have digits : (toString routine.arity).toList = Nat.toDigits 10 routine.arity := by simp
  simp only [String.toList_append, List.append_assoc, Routine.readOutline?, Text.behind?_append,
    Option.bind_eq_bind, Option.bind_some]
  -- A space ends the name, and another one the arity.
  rw [Text.cut?_append (Text.solid_of_isIdentifierText named)]
  simp only [Option.bind_some]
  rw [Text.cut?_append routine.solid_arity]
  simp only [Option.bind_some, Text.signedHex?_signedHex, digits]
  rw [Text.digitsValue_toDigits (by decide) (by decide)]
  rfl

/-- An origin is read back. -/
theorem Origin.read?_text (origin : Origin) : Origin.read? origin.text.toList = some origin := by
  -- An entry of a pool is marked by another word than a constant.
  cases origin with
  | constant => decide
  | pool function =>
    have differ : (Origin.pool function).text.toList ≠ "const".toList := by simp [Origin.text]
    rw [Origin.read?, if_neg differ, Origin.text, String.toList_append, Text.behind?_append]
    simp

/-- A piece of data is read back from its line in a map. -/
theorem Datum.read?_line {datum : Datum}
    (named : Piece.isIdentifierText datum.name.toList = true) (value : IsNumeral datum.value) :
    Datum.read? ("data " ++ datum.name ++ " = " ++ datum.value ++ " (" ++ datum.origin.text ++
      ")").toList = some datum := by
  -- Spaces end the name and the value, and no value holds one.
  simp only [String.toList_append, List.append_assoc, Datum.read?, Text.behind?_append,
    Option.bind_eq_bind, Option.bind_some]
  rw [Text.cut?_append (Text.solid_of_isIdentifierText named)]
  simp only [Option.bind_some]
  rw [Text.cut?_append (Text.solid_of_isNumeral value)]
  simp [Origin.read?_text]

namespace Object

variable {object : Object}

/-- The names and values in the lines of the assembly are those of the object. -/
private theorem Lexical.assembled (lexical : object.Lexical) :
    ∀ line ∈ object.assembled, line.Lexical := by
  -- A line belongs to a function, to a piece of data, or it is blank.
  intro line member
  simp only [Object.assembled, List.mem_append, List.mem_flatMap, List.mem_cons, List.mem_map]
    at member
  rcases member with ⟨routine, listed, inside⟩ | rfl | ⟨datum, listed, rfl⟩
  · simp only [Routine.assembled, List.cons_append, List.mem_cons, List.mem_append, List.mem_map,
      List.not_mem_nil, or_false] at inside
    rcases inside with rfl | ⟨instruction, within, rfl⟩ | rfl
    · exact lexical.functions routine listed
    · exact lexical.operands routine listed instruction within
    · trivial
  · trivial
  · exact ⟨lexical.data datum listed, lexical.values datum listed⟩

/-- No line of the map holds a line ending. -/
private theorem Lexical.oneLine_map (lexical : object.Lexical) :
    ∀ line ∈ object.mapLines, Text.OneLine line.toList := by
  intro line member
  simp only [mapLines, List.mem_append, List.mem_map] at member
  -- The fixed lines are looked at one by one, and the others are made of solid words.
  rcases member with ((head | ⟨routine, listed, rfl⟩) | gap) | ⟨datum, listed, rfl⟩
  · -- The head of the map does not depend on the object.
    revert line
    decide
  · have name := Text.solid_of_isIdentifierText (lexical.functions routine listed)
    have arity : Text.Solid (toString routine.arity).toList := Routine.solid_arity routine
    have frame := Text.solid_signedHex routine.frameSize
    simp only [String.toList_append, Text.oneLine_append]
    exact ⟨⟨⟨⟨⟨by decide, name.oneLine⟩, by decide⟩, arity.oneLine⟩, by decide⟩, frame.oneLine⟩
  · revert line
    decide
  · have name := Text.solid_of_isIdentifierText (lexical.data datum listed)
    have value := Text.solid_of_isNumeral (lexical.values datum listed)
    have origin : Text.OneLine datum.origin.text.toList := by
      cases source : datum.origin with
      | constant => decide
      | pool function =>
        have named := lexical.origins datum listed function (by simp [source, Origin.names])
        rw [Origin.text, String.toList_append, Text.oneLine_append]
        exact ⟨by decide, (Text.solid_of_isIdentifierText named).oneLine⟩
    simp only [String.toList_append, Text.oneLine_append]
    exact ⟨⟨⟨⟨⟨⟨by decide, name.oneLine⟩, by decide⟩, value.oneLine⟩, by decide⟩, origin⟩,
      by decide⟩

/-- The code and the values are read back from the assembly. -/
private theorem Lexical.readAssembly?_assembly (lexical : object.Lexical) (ending : LineEnding) :
    readAssembly? (object.assembly ending) =
      some (object.routines.map fun routine => (routine.name, routine.instructions),
        object.data.map fun datum => (datum.name, datum.value)) := by
  -- Every line is read for itself, for none of them is broken.
  have single : ∀ line ∈ object.assemblyLines, Text.OneLine line.toList := by
    rw [assemblyLines_eq, List.forall_mem_append, List.forall_mem_map]
    exact ⟨by decide, fun line member => (lexical.assembled line member).oneLine_text⟩
  have read : (object.assembled.map (·.text.toList)).mapM AssemblyLine.read? =
      some object.assembled := by
    simpa using Text.mapM_written fun line member => (lexical.assembled line member).read?_text
  have values : (object.data.map fun datum => AssemblyLine.datum datum.name datum.value).mapM
      AssemblyLine.datum? = some (object.data.map fun datum => (datum.name, datum.value)) :=
    Text.mapM_written fun datum _ => rfl
  have divided : AssemblyLine.functions? object.assembled = _ :=
    AssemblyLine.functions?_append object.routines _
  -- The head is taken off, then every line is read, and then the functions are told apart.
  rw [readAssembly?, assembly, Text.lines_join ending single, assemblyLines_eq, List.map_append,
    List.dropPrefix?_append_of_beq _ (beq_self_eq_true _), List.map_map]
  simp only [Option.bind_eq_bind, Option.bind_some, Function.comp_def, read, divided, values]
  rfl

/-- The outlines of the functions and the data are read back from the map. -/
private theorem Lexical.readMap?_map (lexical : object.Lexical) (ending : LineEnding) :
    readMap? (object.map ending) =
      some (object.routines.map fun routine => { routine with instructions := [] },
        object.data) := by
  -- The lines of the functions are not empty, so the first empty one stands behind them.
  have filled : ∀ line ∈ (object.routines.map fun routine =>
      ("func " ++ routine.name ++ " arity=" ++ toString routine.arity ++ " frame=" ++
        Text.signedHex routine.frameSize).toList), decide (line ≠ []) = true := by
    simp
  have gap (rest : List (List Char)) :
      (["", "; data:"].map String.toList ++ rest).takeWhile (· ≠ []) = [] ∧
        (["", "; data:"].map String.toList ++ rest).dropWhile (· ≠ []) =
          ["", "; data:"].map String.toList ++ rest := by
    simp
  have functions := Text.mapM_written fun routine member =>
    Routine.readOutline?_line (lexical.functions routine member)
  have data := Text.mapM_written fun datum member =>
    Datum.read?_line (lexical.data datum member) (lexical.values datum member)
  rw [readMap?, Object.map, Text.lines_join ending lexical.oneLine_map, mapLines, List.append_assoc,
    List.append_assoc, List.map_append, List.dropPrefix?_append_of_beq _ (beq_self_eq_true _)]
  simp only [Option.bind_eq_bind, Option.bind_some, List.map_append, List.map_map,
    Function.comp_def, List.takeWhile_append_of_pos filled, List.dropWhile_append_of_pos filled,
    (gap _).1, (gap _).2, List.append_nil, List.dropPrefix?_append_of_beq _ (beq_self_eq_true _),
    functions, data, List.map_id']
  rfl

/-- An object with numbers below zero, nothing to add to an address, and a function without code. -/
def oddities : Object where
  routines := [
    ⟨"main", 0, 16, [
      ⟨.push, [.register (.address .rbp)]⟩,
      ⟨.sub, [.immediate (-16), .register (.address .rsp)]⟩,
      ⟨.movsd, [.memory .rip (.symbol "_c_const_main_0"), .register (.double ⟨7, by decide⟩)]⟩,
      ⟨.movsd, [.memory .rsp (.bytes 0), .memory .rbp (.bytes (-8))]⟩,
      ⟨.callq, [.label "empty"]⟩,
      ⟨.retq, []⟩]⟩,
    ⟨"empty", 11, -32, []⟩]
  data := [⟨"scale", "-1.50", .constant⟩, ⟨"_c_const_main_0", "2", .pool "main"⟩]

/-- The odd object is lexical. -/
private theorem lexical_oddities : oddities.Lexical where
  functions := by decide
  operands := by decide
  data := by decide
  values := by decide
  origins := by decide

end Object

end DoubleLang
