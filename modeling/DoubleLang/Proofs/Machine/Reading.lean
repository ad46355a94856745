import DoubleLang.Machine.Text
import DoubleLang.Proofs.Text.Reading

/-!
Lines of assembly read back as the instructions they were written from.

An operand is told by its first character and by the parenthesis it may end in. No operand holds a
space or a comma, so the spaces end the word of the operation and the commas divide the operands.
-/

namespace DoubleLang

/-- The address register of a name. -/
def AddressRegister.read? : List Char → Option AddressRegister :=
  Text.written? [.rbp, .rsp, .rip] AddressRegister.text

/-- The register of a name. -/
def Register.read? : List Char → Option Register :=
  Text.written? ([.address .rbp, .address .rsp, .address .rip] ++
    (List.finRange 8).map Register.double) Register.text

/-- The operation of a word. -/
def Mnemonic.read? : List Char → Option Mnemonic :=
  Text.written? [.push, .mov, .sub, .add, .movsd, .movaps, .addsd, .subsd, .mulsd, .divsd, .callq,
    .leaveq, .retq] Mnemonic.text

/-- The displacement of a text: no bytes, a number of them, or else a symbol. -/
def Displacement.read (text : List Char) : Displacement :=
  if text.isEmpty then .bytes 0
  else match Text.signedHex? text with
    | some count => .bytes count
    | none => .symbol (String.ofList text)

/-- The operand of a text without a parenthesis, told by its first character. -/
def Operand.readFlat? : List Char → Option Operand
  | '%' :: name => (Register.read? name).map .register
  | '$' :: value => (Text.signedHex? value).map .immediate
  | name => some (.label (String.ofList name))

/-- The operand of a text; one in memory has its base in parentheses at the end. -/
def Operand.read? (text : List Char) : Option Operand :=
  match text.dropWhile (· ≠ '(') with
  | [] => readFlat? text
  | '(' :: '%' :: base =>
    (AddressRegister.read? base.dropLast).map fun base =>
      .memory base (.read (text.takeWhile (· ≠ '(')))
  | _ :: _ => none

/-- The instruction of a line: its word goes up to the next space, its operands up to the commas. -/
def Instruction.read? (line : List Char) : Option Instruction := do
  let text ← Text.behind? "    " line
  let mnemonic ← Mnemonic.read? (text.takeWhile (· ≠ ' '))
  let operands := (text.dropWhile (· ≠ ' ')).dropWhile (· = ' ')
  -- A word alone has nothing behind it, not even an empty operand.
  if operands.isEmpty then return ⟨mnemonic, []⟩
  else return ⟨mnemonic, ← (operands.splitOn ',').mapM Operand.read?⟩

/-- The names that an operand holds. -/
def Operand.names : Operand → List String
  | .label name => [name]
  | .memory _ (.symbol name) => [name]
  | _ => []

/-- Every name that an operand holds is an identifier. -/
def Operand.Identified (operand : Operand) : Prop :=
  ∀ name ∈ operand.names, Piece.isIdentifierText name.toList = true

instance (operand : Operand) : Decidable operand.Identified :=
  inferInstanceAs (Decidable (∀ name ∈ operand.names, Piece.isIdentifierText name.toList = true))

/-- A register of addresses is read back from its name. -/
theorem AddressRegister.read?_text (register : AddressRegister) :
    read? register.text.toList = some register := by
  cases register <;> decide

/-- A register is read back from its name. -/
theorem Register.read?_text (register : Register) : read? register.text.toList = some register := by
  cases register with
  | address register => cases register <;> decide
  | double register => revert register; decide

/-- A mnemonic is read back from its word. -/
theorem Mnemonic.read?_text (mnemonic : Mnemonic) :
    read? mnemonic.text.toList = some mnemonic := by
  cases mnemonic <;> decide

/-- The name of a register of addresses is solid. -/
theorem AddressRegister.solid_text (register : AddressRegister) :
    Text.Solid register.text.toList := by
  cases register <;> decide

/-- The name of a register is solid. -/
theorem Register.solid_text (register : Register) : Text.Solid register.text.toList := by
  cases register with
  | address register => exact register.solid_text
  | double register => revert register; decide

/-- The word of a mnemonic is solid. -/
theorem Mnemonic.solid_text (mnemonic : Mnemonic) : Text.Solid mnemonic.text.toList := by
  cases mnemonic <;> decide

/-- A displacement is read back, if its symbol is an identifier. -/
private theorem Displacement.read_text {displacement : Displacement}
    (named : ∀ name, displacement = .symbol name → Piece.isIdentifierText name.toList = true) :
    Displacement.read displacement.text.toList = displacement := by
  -- No displacement is written as nothing, and nothing is read as none.
  cases displacement with
  | bytes count =>
    by_cases none : count = 0
    · simp [Displacement.text, none, Displacement.read]
    · simp [Displacement.text, none, Displacement.read, Text.signedHex?_signedHex,
        Text.signedHex_ne_empty]
  | symbol name =>
    have identifier := named name rfl
    -- No identifier is a number, and none is empty.
    have filled : name.toList ≠ [] := by
      intro empty
      simp [empty, Piece.isIdentifierText] at identifier
    simp [Displacement.text, Displacement.read, Text.signedHex?_of_isIdentifierText identifier,
      filled]

/-- A displacement is solid, if its symbol is an identifier. -/
theorem Displacement.solid_text {displacement : Displacement}
    (named : ∀ name, displacement = .symbol name → Piece.isIdentifierText name.toList = true) :
    Text.Solid displacement.text.toList := by
  -- Numbers and identifiers hold nothing that divides texts.
  cases displacement with
  | bytes count =>
    rw [Displacement.text]
    split
    · decide
    · exact Text.solid_signedHex count
  | symbol name => exact Text.solid_of_isIdentifierText (named name rfl)

namespace Operand

variable {operand : Operand}

/-- An operand in memory names the symbol of its displacement. -/
theorem Identified.symbol {base : AddressRegister} {displacement : Displacement}
    (identified : Identified (.memory base displacement)) :
    ∀ name, displacement = .symbol name → Piece.isIdentifierText name.toList = true := by
  rintro name rfl
  exact identified name (by simp [names])

/-- An operand is solid but for the parentheses it may have. -/
private theorem not_mem_text (identified : operand.Identified) {c : Char}
    (divides : Text.isSolid c = false := by decide) (flat : c ≠ '(' ∧ c ≠ ')' := by decide) :
    c ∉ operand.text.toList := by
  -- Each part of the operand is solid, and what stands between the parts is known.
  have apart {part : List Char} (solid : Text.Solid part) : c ∉ part := solid.not_mem divides
  cases operand with
  | register named =>
    rw [text, String.toList_append, List.mem_append, not_or]
    exact ⟨apart (by decide), apart named.solid_text⟩
  | immediate value =>
    rw [text, String.toList_append, List.mem_append, not_or]
    exact ⟨apart (by decide), apart (Text.solid_signedHex value)⟩
  | memory base displacement =>
    simp only [text, String.toList_append, List.mem_append, not_or]
    refine ⟨⟨⟨apart (Displacement.solid_text identified.symbol), ?_⟩, apart base.solid_text⟩, ?_⟩
    · have percent : c ≠ '%' := by
        rintro rfl
        cases divides
      simp [flat, percent]
    · simp [flat]
  | label name => exact apart (Text.solid_of_isIdentifierText (identified name (by simp [names])))

/-- An operand is not empty. -/
private theorem text_ne_empty (identified : operand.Identified) : operand.text ≠ "" := by
  -- All but a label start with a sign of their own or hold parentheses.
  cases operand with
  | register named => simp [text]
  | immediate value => simp [text]
  | memory base displacement => simp [text]
  | label name =>
    have identifier := identified name (by simp [names])
    intro empty
    simp only [text] at empty
    simp [empty, Piece.isIdentifierText] at identifier

/-- A solid text is an operand without a parenthesis. -/
private theorem read?_of_solid {text : List Char} (solid : Text.Solid text) :
    Operand.read? text = readFlat? text := by
  have closed : '(' ∉ text := solid.not_mem
  rw [Operand.read?, (Text.cut_none closed).2]

/-- An operand is read back from its text. -/
theorem read?_text (identified : operand.Identified) :
    Operand.read? operand.text.toList = some operand := by
  -- The sign in front tells what kind of operand is read.
  cases operand with
  | register named =>
    have written : (register named).text.toList = '%' :: named.text.toList := by simp [text]
    rw [written, read?_of_solid (Text.solid_cons.mpr ⟨by decide, named.solid_text⟩)]
    simp [readFlat?, Register.read?_text]
  | immediate value =>
    have written : (immediate value).text.toList = '$' :: (Text.signedHex value).toList := by
      simp [text]
    rw [written, read?_of_solid (Text.solid_cons.mpr ⟨by decide, Text.solid_signedHex value⟩)]
    simp [readFlat?, Text.signedHex?_signedHex]
  | memory base displacement =>
    have solid := Displacement.solid_text identified.symbol
    -- The displacement goes up to the parenthesis, which it does not hold.
    have written : (memory base displacement).text.toList =
        displacement.text.toList ++ '(' :: '%' :: (base.text.toList ++ [')']) := by
      simp [text]
    have flat : '(' ∉ displacement.text.toList := solid.not_mem
    obtain ⟨taken, dropped⟩ := Text.cut_at flat ('%' :: (base.text.toList ++ [')']))
    rw [written, Operand.read?, dropped, taken]
    simp [AddressRegister.read?_text, Displacement.read_text identified.symbol]
  | label name =>
    have identifier := identified name (by simp [names])
    rw [text, read?_of_solid (Text.solid_of_isIdentifierText identifier)]
    -- No identifier starts like a register or an immediate.
    unfold readFlat?
    split
    · simp_all [Piece.isIdentifierText, Piece.startsIdentifier]
    · simp_all [Piece.isIdentifierText, Piece.startsIdentifier]
    · simp

/-- Operands between commas hold nothing else that divides texts. -/
private theorem not_mem_joined {operands : List Operand}
    (identified : ∀ operand ∈ operands, operand.Identified) {c : Char}
    (divides : Text.isSolid c = false := by decide)
    (flat : c ≠ '(' ∧ c ≠ ')' ∧ c ≠ ',' := by decide) :
    c ∉ (String.intercalate "," (operands.map text)).toList := by
  -- Between the operands stand commas, and each is solid but for its parentheses.
  rw [String.toList_intercalate, List.map_map]
  refine Text.not_mem_intercalate flat.2.2 ?_
  intro part member
  obtain ⟨operand, listed, rfl⟩ := List.mem_map.mp member
  exact not_mem_text (identified operand listed) divides ⟨flat.1, flat.2.1⟩

/-- Operands between commas are not empty. -/
private theorem joined_ne_nil {operands : List Operand} (filled : operands ≠ [])
    (identified : ∀ operand ∈ operands, operand.Identified) :
    (String.intercalate "," (operands.map text)).toList ≠ [] := by
  -- There is a first operand, and it is not empty.
  obtain ⟨first, rest, rfl⟩ := List.exists_cons_of_ne_nil filled
  have front := text_ne_empty (identified first List.mem_cons_self)
  rw [String.toList_intercalate]
  -- The text of the first operand is the start of it all.
  cases rest with
  | nil => simpa using front
  | cons second later => simp [List.intercalate_cons_cons]

/-- Operands are read back from between their commas. -/
private theorem mapM_read?_joined {operands : List Operand} (filled : operands ≠ [])
    (identified : ∀ operand ∈ operands, operand.Identified) :
    ((String.intercalate "," (operands.map text)).toList.splitOn ',').mapM Operand.read? =
      some operands := by
  -- An operand holds no comma, so the commas between them divide them.
  have divided : (String.intercalate "," (operands.map text)).toList.splitOn ',' =
      operands.map (·.text.toList) := by
    rw [String.toList_intercalate, List.map_map]
    refine List.splitOn_intercalate ',' ?_ (by simpa using filled)
    intro part member
    obtain ⟨operand, listed, rfl⟩ := List.mem_map.mp member
    exact not_mem_text (identified operand listed)
  rw [divided]
  simpa using Text.mapM_written fun operand member => read?_text (identified operand member)

end Operand

namespace Instruction

variable {instruction : Instruction}

/-- A word is followed by a space before its operands, for the longest leave two columns. -/
private theorem padded_text (mnemonic : Mnemonic) :
    (padded 8 mnemonic.text).toList = mnemonic.text.toList ++
      ' ' :: List.replicate (7 - Text.width mnemonic.text.toList) ' ' := by
  -- No word is longer than six characters.
  have columns : 8 - Text.width mnemonic.text.toList =
      (7 - Text.width mnemonic.text.toList) + 1 := by
    cases mnemonic <;> decide
  rw [padded, String.toList_append, String.toList_ofList, columns, List.replicate_succ]

/-- A line holds, besides what its operands do, only spaces and commas. -/
theorem not_mem_line (identified : ∀ operand ∈ instruction.operands, operand.Identified) {c : Char}
    (divides : Text.isSolid c = false := by decide)
    (flat : c ≠ '(' ∧ c ≠ ')' ∧ c ≠ ',' := by decide) (dark : c ≠ ' ' := by decide) :
    c ∉ instruction.line.toList := by
  -- A line has an indent, a word, and operands behind spaces if there are any.
  have indent : c ∉ "    ".toList := by simpa using dark
  have word : c ∉ instruction.mnemonic.text.toList :=
    instruction.mnemonic.solid_text.not_mem divides
  unfold line instructionLine
  split
  · rw [String.toList_append, List.mem_append, not_or]
    exact ⟨indent, word⟩
  · simp only [String.toList_append, padded_text, List.mem_append, List.mem_cons, not_or]
    refine ⟨⟨indent, word, dark, ?_⟩, Operand.not_mem_joined identified divides flat⟩
    intro member
    exact dark (List.eq_of_mem_replicate member)

/-- An instruction is read back from its line. -/
theorem read?_line (identified : ∀ operand ∈ instruction.operands, operand.Identified) :
    Instruction.read? instruction.line.toList = some instruction := by
  -- A word holds no space, so the first space ends it.
  obtain ⟨mnemonic, operands⟩ := instruction
  have solid : ' ' ∉ mnemonic.text.toList := mnemonic.solid_text.not_mem
  by_cases filled : operands = []
  · -- The word is the rest of the line.
    subst filled
    have written : (line ⟨mnemonic, []⟩).toList = "    ".toList ++ mnemonic.text.toList := by
      simp [line, instructionLine]
    obtain ⟨taken, dropped⟩ := Text.cut_none solid
    rw [written]
    simp only [Instruction.read?, Text.behind?_append, Option.bind_eq_bind, Option.bind_some, taken,
      dropped, Mnemonic.read?_text]
    rfl
  · have written : (line ⟨mnemonic, operands⟩).toList = "    ".toList ++ (mnemonic.text.toList ++
        ' ' :: (List.replicate (7 - Text.width mnemonic.text.toList) ' ' ++
          (String.intercalate "," (operands.map Operand.text)).toList)) := by
      simp [line, instructionLine, filled, padded_text]
    -- The first space ends the word, and all spaces are left out before the operands.
    obtain ⟨taken, dropped⟩ := Text.cut_at solid
      (List.replicate (7 - Text.width mnemonic.text.toList) ' ' ++
        (String.intercalate "," (operands.map Operand.text)).toList)
    have spaces := Text.dropWhile_spaces (Operand.not_mem_joined identified)
      (7 - Text.width mnemonic.text.toList)
    have more := Operand.joined_ne_nil filled identified
    rw [written]
    simp only [Instruction.read?, Text.behind?_append, Option.bind_eq_bind, Option.bind_some, taken,
      dropped, Mnemonic.read?_text]
    rw [List.dropWhile_cons_of_pos (by simp), spaces, if_neg (by simpa using more),
      Operand.mapM_read?_joined filled identified]
    rfl

end Instruction

end DoubleLang
