import ScipClang.Compdb.Variants

/-!
# Splitting command lines

The `command` of an entry of a compilation database is one string, which
`unescapeCommandLine` (`indexer/LlvmCommandLineParsing.cc`) splits into arguments, with quotes and
backslashes as in a shell.  The code is a copy of the parser in Clang, which has no description
other than its code, so the grammar is given here: an argument is a sequence of pieces, and what
is unfinished at the end of the text belongs to the last argument.

* `parse_eq_iff`: the parser is exact for the grammar, and fails on no text.
* `produces_sameEntries`: a command line, however it is quoted, is as good as the list of its
  arguments.

A position in the text is the text from there on.  The methods of the parser return false if they
get to the end, which is the empty text here.
-/

namespace ScipClang

namespace Compdb

/-! ## The parser -/

namespace CommandLineArgumentParser

/-- The loops of `parseDoubleQuotedStringInto` and `parseFreeStringInto`, which end in front of
different characters. -/
def parseLetters (ends : List Char) : Str → Str → Str × Str
  | string, [] => (string, [])
  | string, c :: input =>
      if c ∈ ends then (string, c :: input)
      else if c ≠ '\\' then parseLetters ends (string ++ [c]) input
      else
        match input with
        | [] => (string, [])
        | c :: input => parseLetters ends (string ++ [c]) input

/-- `parseDoubleQuotedStringInto`, at the opening quote. -/
def parseDoubleQuotedStringInto (string input : Str) : Str × Str :=
  let (string, input) := parseLetters ['"'] string input.tail
  (string, input.tail)

/-- The loop of `parseSingleQuotedStringInto`. -/
def parseVerbatim : Str → Str → Str × Str
  | string, [] => (string, [])
  | string, c :: input =>
      if c = '\'' then (string, c :: input) else parseVerbatim (string ++ [c]) input

/-- `parseSingleQuotedStringInto`, at the opening quote. -/
def parseSingleQuotedStringInto (string input : Str) : Str × Str :=
  let (string, input) := parseVerbatim string input.tail
  (string, input.tail)

/-- The characters in front of which a free string ends. -/
def endsFree : List Char := [' ', '"', '\'']

/-- `skipEscapeCharacter`. -/
def skipEscapeCharacter : Str → Str
  | [] => []
  | c :: input => if c = '\\' then input else c :: input

/-- `parseFreeStringInto`, which does not ask what the first character is. -/
def parseFreeStringInto (string input : Str) : Str × Str :=
  match skipEscapeCharacter input with
  | [] => (string, [])
  | c :: input => parseLetters endsFree (string ++ [c]) input

/-- The body of the loop of `parseStringInto`. -/
def parsePieceInto (string input : Str) : Str × Str :=
  if input.head? = some '"' then parseDoubleQuotedStringInto string input
  else if input.head? = some '\'' then parseSingleQuotedStringInto string input
  else parseFreeStringInto string input

/-! ### The parser gets on -/

theorem length_parseLetters_le (ends : List Char) (string input : Str) :
    (parseLetters ends string input).2.length ≤ input.length := by
  fun_induction parseLetters ends string input with
  | case1 => exact Nat.le_refl _
  | case2 => exact Nat.le_refl _
  | case3 string c input _ _ ih => exact Nat.le_succ_of_le ih
  | case4 => exact Nat.zero_le _
  | case5 _ _ _ _ _ _ ih => exact Nat.le_succ_of_le (Nat.le_succ_of_le ih)

theorem length_parseVerbatim_le (string input : Str) :
    (parseVerbatim string input).2.length ≤ input.length := by
  fun_induction parseVerbatim string input with
  | case1 => exact Nat.le_refl _
  | case2 => exact Nat.le_refl _
  | case3 string c input _ ih => exact Nat.le_succ_of_le ih

theorem length_parsePieceInto_lt {string input : Str} (h : (parsePieceInto string input).2 ≠ []) :
    (parsePieceInto string input).2.length < input.length := by
  cases input with
  | nil => exact absurd rfl h
  | cons c input =>
      unfold parsePieceInto
      split
      · have hle := length_parseLetters_le ['"'] string input
        show (parseLetters ['"'] string input).2.tail.length < input.length + 1
        rw [List.length_tail]
        omega
      · split
        · have hle := length_parseVerbatim_le string input
          show (parseVerbatim string input).2.tail.length < input.length + 1
          rw [List.length_tail]
          omega
        · have hskip : (skipEscapeCharacter (c :: input)).length ≤ input.length + 1 := by
            show List.length (if c = '\\' then input else c :: input) ≤ _
            split
            · exact Nat.le_succ _
            · exact Nat.le_refl _
          unfold parseFreeStringInto
          generalize skipEscapeCharacter (c :: input) = rest at hskip
          cases rest with
          | nil => exact Nat.zero_lt_succ _
          | cons d rest =>
              have hle := length_parseLetters_le endsFree (string ++ [d]) rest
              show (parseLetters endsFree (string ++ [d]) rest).2.length < input.length + 1
              rw [List.length_cons] at hskip
              omega

/-- `parseStringInto`; the argument goes on until the text ends, or a space follows a piece. -/
def parseStringInto (string input : Str) : Str × Str :=
  let piece := parsePieceInto string input
  if piece.2 ≠ [] ∧ piece.2.head? ≠ some ' ' then parseStringInto piece.1 piece.2 else piece
termination_by input.length
decreasing_by exact length_parsePieceInto_lt (And.left ‹_›)

theorem length_parseStringInto_lt {string input : Str}
    (h : (parseStringInto string input).2 ≠ []) :
    (parseStringInto string input).2.length < input.length := by
  fun_induction parseStringInto string input with
  | case1 string input piece hgoes ih =>
      exact (ih h).trans (length_parsePieceInto_lt hgoes.1)
  | case2 => exact length_parsePieceInto_lt h

/-- `nextNonWhitespace`, given the text after the position. -/
def nextNonWhitespace : Str → Str
  | [] => []
  | c :: after => if c = ' ' then nextNonWhitespace after else c :: after

theorem length_nextNonWhitespace_le (after : Str) :
    (nextNonWhitespace after).length ≤ after.length := by
  fun_induction nextNonWhitespace after with
  | case1 => exact Nat.le_refl _
  | case2 after ih => exact Nat.le_succ_of_le ih
  | case3 => exact Nat.le_refl _

/-- The loop of `parse`, given the text after the position. -/
def parse (after : Str) : List Str :=
  if nextNonWhitespace after = [] then []
  else
    let result := parseStringInto [] (nextNonWhitespace after)
    if result.2 ≠ [] then result.1 :: parse result.2.tail else [result.1]
termination_by after.length
decreasing_by
  have hlt := @length_parseStringInto_lt [] (nextNonWhitespace after) ‹_›
  have hle := length_nextNonWhitespace_le after
  show (parseStringInto [] (nextNonWhitespace after)).2.tail.length < after.length
  rw [List.length_tail]
  omega

end CommandLineArgumentParser

/-! ## The grammar -/

namespace CommandLine

open CommandLineArgumentParser (endsFree)

/-- A character, written as it is or after a backslash. -/
structure Letter (ends : List Char) where
  value : Char
  escaped : Bool
  legal : escaped = false → value ≠ '\\' ∧ value ∉ ends

/-- A piece of an argument. -/
inductive Piece where
  | free (letter : Letter endsFree)
  | doubleQuoted (letters : List (Letter ['"']))
  | singleQuoted (text : Str) (legal : '\'' ∉ text)

/-- What is unfinished when the text ends. -/
inductive Unfinished where
  | backslash
  | doubleQuoted (letters : List (Letter ['"'])) (dangling : Bool)
  | singleQuoted (text : Str) (legal : '\'' ∉ text)

/-- An argument, with the number of further spaces after the one that ends it. -/
structure Argument where
  pieces : List Piece
  pieces_ne_nil : pieces ≠ []
  spaces : Nat

/-- The argument that the text ends with. -/
structure LastArgument where
  pieces : List Piece
  unfinished : Option Unfinished
  nonempty : pieces ≠ [] ∨ unfinished ≠ none

end CommandLine

/-- A line of arguments. -/
structure CommandLine where
  indent : Nat
  arguments : List CommandLine.Argument
  last : Option CommandLine.LastArgument

namespace CommandLine

/-! ### How a line is written -/

variable {ends : List Char}

def Letter.render (letter : Letter ends) : Str :=
  if letter.escaped then ['\\', letter.value] else [letter.value]

def Piece.render : Piece → Str
  | free letter => letter.render
  | doubleQuoted letters => '"' :: letters.flatMap Letter.render ++ ['"']
  | singleQuoted text _ => '\'' :: text ++ ['\'']

def Unfinished.render : Unfinished → Str
  | backslash => ['\\']
  | doubleQuoted letters dangling =>
      '"' :: letters.flatMap Letter.render ++ if dangling then ['\\'] else []
  | singleQuoted text _ => '\'' :: text

def Argument.render (argument : Argument) : Str :=
  argument.pieces.flatMap Piece.render ++ ' ' :: List.replicate argument.spaces ' '

def LastArgument.render (last : LastArgument) : Str :=
  last.pieces.flatMap Piece.render ++ last.unfinished.elim [] Unfinished.render

def render (line : CommandLine) : Str :=
  List.replicate line.indent ' ' ++ line.arguments.flatMap Argument.render ++
    line.last.elim [] LastArgument.render

/-! ### What a line says -/

def Piece.value : Piece → Str
  | free letter => [letter.value]
  | doubleQuoted letters => letters.map Letter.value
  | singleQuoted text _ => text

def Unfinished.value : Unfinished → Str
  | backslash => []
  | doubleQuoted letters _ => letters.map Letter.value
  | singleQuoted text _ => text

def Argument.value (argument : Argument) : Str := argument.pieces.flatMap Piece.value

def LastArgument.value (last : LastArgument) : Str :=
  last.pieces.flatMap Piece.value ++ last.unfinished.elim [] Unfinished.value

/-- The arguments of a line. -/
def values (line : CommandLine) : List Str :=
  line.arguments.map Argument.value ++ line.last.elim [] fun last => [last.value]

end CommandLine

/-! ## Reading a line -/

namespace CommandLineArgumentParser

open CommandLine

section Letters

variable {ends : List Char} {c : Char}

theorem parseLetters_of_mem (h : c ∈ ends) (string input : Str) :
    parseLetters ends string (c :: input) = (string, c :: input) := by
  rw [parseLetters.eq_def]
  exact if_pos h

theorem parseLetters_of_plain (h : c ∉ ends) (hbackslash : c ≠ '\\') (string input : Str) :
    parseLetters ends string (c :: input) = parseLetters ends (string ++ [c]) input := by
  rw [parseLetters.eq_def]
  exact (if_neg h).trans (if_pos hbackslash)

theorem parseLetters_escaped (hends : '\\' ∉ ends) (string input : Str) :
    parseLetters ends string ('\\' :: c :: input) = parseLetters ends (string ++ [c]) input := by
  rw [parseLetters.eq_def]
  exact (if_neg hends).trans (if_neg (not_not.mpr rfl))

theorem parseLetters_dangling (hends : '\\' ∉ ends) (string : Str) :
    parseLetters ends string ['\\'] = (string, []) := by
  rw [parseLetters.eq_def]
  exact (if_neg hends).trans (if_neg (not_not.mpr rfl))

/-- Letters are read one after the other. -/
theorem parseLetters_append (hends : '\\' ∉ ends) (letters : List (Letter ends))
    (string rest : Str) :
    parseLetters ends string (letters.flatMap Letter.render ++ rest) =
      parseLetters ends (string ++ letters.map Letter.value) rest := by
  induction letters generalizing string with
  | nil => rw [List.flatMap_nil, List.nil_append, List.map_nil, List.append_nil]
  | cons letter letters ih =>
      have hone : ∀ input, parseLetters ends string (letter.render ++ input) =
          parseLetters ends (string ++ [letter.value]) input := by
        intro input
        unfold Letter.render
        split
        · exact parseLetters_escaped hends string input
        · next hescaped =>
            obtain ⟨hbackslash, hlegal⟩ := letter.legal (eq_false_of_ne_true hescaped)
            exact parseLetters_of_plain hlegal hbackslash string input
      rw [List.flatMap_cons, List.append_assoc, hone, ih, List.map_cons, List.append_assoc]
      rfl

end Letters

theorem parseVerbatim_append {text : Str} (h : '\'' ∉ text) (string rest : Str) :
    parseVerbatim string (text ++ rest) = parseVerbatim (string ++ text) rest := by
  induction text generalizing string with
  | nil => rw [List.nil_append, List.append_nil]
  | cons c text ih =>
      rw [List.mem_cons, not_or] at h
      rw [List.cons_append, parseVerbatim, if_neg (Ne.symm h.1), ih h.2, List.append_assoc]
      rfl

/-- What `parseStringInto` does after a piece. -/
def goOn (string rest : Str) : Str × Str :=
  if rest ≠ [] ∧ rest.head? ≠ some ' ' then parseStringInto string rest else (string, rest)

theorem parseStringInto_eq (string input : Str) :
    parseStringInto string input =
      goOn (parsePieceInto string input).1 (parsePieceInto string input).2 := by
  rw [parseStringInto]
  rfl

theorem goOn_of_head {string rest : Str} (hne : rest ≠ []) (hhead : rest.head? ≠ some ' ') :
    goOn string rest = parseStringInto string rest := if_pos ⟨hne, hhead⟩

theorem backslash_notMem_endsFree : '\\' ∉ endsFree := by decide

theorem backslash_notMem_quote : '\\' ∉ ['"'] := by decide

/-- A free string may as well be read letter by letter. -/
theorem goOn_parseLetters (string rest : Str) :
    goOn (parseLetters endsFree string rest).1 (parseLetters endsFree string rest).2 =
      goOn string rest := by
  cases rest with
  | nil => rfl
  | cons c rest =>
      by_cases hc : c ∈ endsFree
      · rw [parseLetters_of_mem hc]
      · have hne : c ≠ ' ' ∧ c ≠ '"' ∧ c ≠ '\'' := by simpa [endsFree] using hc
        rw [@goOn_of_head string (c :: rest) (List.cons_ne_nil _ _) (by simpa using hne.1),
          parseStringInto_eq]
        have hpiece : parsePieceInto string (c :: rest) =
            parseLetters endsFree string (c :: rest) := by
          rw [parsePieceInto, if_neg (by simpa using hne.2.1), if_neg (by simpa using hne.2.2),
            parseFreeStringInto, skipEscapeCharacter]
          by_cases hbackslash : c = '\\'
          · subst hbackslash
            cases rest with
            | nil => exact (parseLetters_dangling backslash_notMem_endsFree string).symm
            | cons d rest => exact (parseLetters_escaped backslash_notMem_endsFree string rest).symm
          · rw [if_neg hbackslash]
            exact (parseLetters_of_plain hc hbackslash string rest).symm
        rw [hpiece]

theorem parsePieceInto_doubleQuote (string input : Str) :
    parsePieceInto string ('"' :: input) =
      ((parseLetters ['"'] string input).1, (parseLetters ['"'] string input).2.tail) := rfl

theorem parsePieceInto_singleQuote (string input : Str) :
    parsePieceInto string ('\'' :: input) =
      ((parseVerbatim string input).1, (parseVerbatim string input).2.tail) := rfl

/-- A piece is read whole, and what follows it decides how it goes on. -/
theorem goOn_piece (piece : Piece) (string rest : Str) :
    goOn string (piece.render ++ rest) = goOn (string ++ piece.value) rest := by
  cases piece with
  | free letter =>
      have hone := parseLetters_append backslash_notMem_endsFree [letter] string rest
      rw [List.flatMap_singleton, List.map_singleton] at hone
      show goOn string (letter.render ++ rest) = _
      rw [← goOn_parseLetters, hone, goOn_parseLetters]
      rfl
  | doubleQuoted letters =>
      show goOn string ('"' :: (letters.flatMap Letter.render ++ ['"']) ++ rest) = _
      rw [List.cons_append, goOn_of_head (List.cons_ne_nil _ _) (by simp), parseStringInto_eq,
        parsePieceInto_doubleQuote, List.append_assoc, parseLetters_append backslash_notMem_quote,
        List.singleton_append, parseLetters_of_mem (List.mem_singleton_self _)]
      rfl
  | singleQuoted text hlegal =>
      show goOn string ('\'' :: (text ++ ['\'']) ++ rest) = _
      rw [List.cons_append, goOn_of_head (List.cons_ne_nil _ _) (by simp), parseStringInto_eq,
        parsePieceInto_singleQuote, List.append_assoc, parseVerbatim_append hlegal,
        List.singleton_append]
      rfl

theorem goOn_pieces (pieces : List Piece) (string rest : Str) :
    goOn string (pieces.flatMap Piece.render ++ rest) =
      goOn (string ++ pieces.flatMap Piece.value) rest := by
  induction pieces generalizing string with
  | nil => rw [List.flatMap_nil, List.nil_append, List.flatMap_nil, List.append_nil]
  | cons piece pieces ih =>
      rw [List.flatMap_cons, List.append_assoc, goOn_piece, ih, List.append_assoc,
        List.flatMap_cons]

theorem goOn_unfinished (unfinished : Unfinished) (string : Str) :
    goOn string unfinished.render = (string ++ unfinished.value, []) := by
  cases unfinished with
  | backslash =>
      show goOn string ['\\'] = _
      rw [← goOn_parseLetters, parseLetters_dangling backslash_notMem_endsFree]
      exact congrArg (·, []) (List.append_nil _).symm
  | doubleQuoted letters dangling =>
      show goOn string ('"' :: (letters.flatMap Letter.render ++ _)) = _
      rw [goOn_of_head (List.cons_ne_nil _ _) (by simp), parseStringInto_eq,
        parsePieceInto_doubleQuote, parseLetters_append backslash_notMem_quote]
      cases dangling with
      | false => rfl
      | true => rfl
  | singleQuoted text hlegal =>
      show goOn string ('\'' :: text) = _
      have hread := parseVerbatim_append hlegal string []
      rw [List.append_nil] at hread
      rw [goOn_of_head (List.cons_ne_nil _ _) (by simp), parseStringInto_eq,
        parsePieceInto_singleQuote, hread]
      rfl

/-! ### The loop over the arguments -/

theorem parse_eq (after : Str) :
    parse after =
      if nextNonWhitespace after = [] then []
      else if (parseStringInto [] (nextNonWhitespace after)).2 ≠ [] then
        (parseStringInto [] (nextNonWhitespace after)).1 ::
          parse (parseStringInto [] (nextNonWhitespace after)).2.tail
      else [(parseStringInto [] (nextNonWhitespace after)).1] := by
  rw [parse]

theorem parse_spaces (n : Nat) (after : Str) :
    parse (List.replicate n ' ' ++ after) = parse after := by
  induction n with
  | zero => rfl
  | succ n ih =>
      rw [List.replicate_succ, List.cons_append, ← ih, parse_eq (' ' :: _), parse_eq (_ ++ _)]
      rfl

/-- At the start of an argument. -/
theorem parse_of_head {input : Str} (hne : input ≠ []) (hhead : input.head? ≠ some ' ') :
    parse input =
      if (goOn [] input).2 ≠ [] then (goOn [] input).1 :: parse (goOn [] input).2.tail
      else [(goOn [] input).1] := by
  obtain ⟨c, input, rfl⟩ := List.exists_cons_of_ne_nil hne
  have hnext : nextNonWhitespace (c :: input) = c :: input := if_neg (by simpa using hhead)
  rw [parse_eq, hnext, if_neg hne, goOn_of_head hne hhead]

theorem head?_render_piece (piece : Piece) (rest : Str) :
    piece.render ++ rest ≠ [] ∧ (piece.render ++ rest).head? ≠ some ' ' := by
  cases piece with
  | free letter =>
      obtain ⟨value, escaped, hlegal⟩ := letter
      cases escaped with
      | true => exact ⟨List.cons_ne_nil _ _, by simp [Piece.render, Letter.render]⟩
      | false =>
          have hne : value ≠ ' ' := fun heq => (hlegal rfl).2 (by simp [heq, endsFree])
          exact ⟨List.cons_ne_nil _ _, by simpa [Piece.render, Letter.render] using hne⟩
  | doubleQuoted letters => exact ⟨List.cons_ne_nil _ _, by simp [Piece.render]⟩
  | singleQuoted text hlegal => exact ⟨List.cons_ne_nil _ _, by simp [Piece.render]⟩

theorem head?_render_pieces {pieces : List Piece} (h : pieces ≠ []) (rest : Str) :
    pieces.flatMap Piece.render ++ rest ≠ [] ∧
      (pieces.flatMap Piece.render ++ rest).head? ≠ some ' ' := by
  obtain ⟨piece, pieces, rfl⟩ := List.exists_cons_of_ne_nil h
  rw [List.flatMap_cons, List.append_assoc]
  exact head?_render_piece piece _

theorem parse_argument (argument : Argument) (after : Str) :
    parse (argument.render ++ after) = argument.value :: parse after := by
  have hrender : argument.render ++ after = argument.pieces.flatMap Piece.render ++
      ' ' :: (List.replicate argument.spaces ' ' ++ after) := by
    rw [Argument.render, List.append_assoc, List.cons_append]
  obtain ⟨hne, hhead⟩ := head?_render_pieces argument.pieces_ne_nil
    (' ' :: (List.replicate argument.spaces ' ' ++ after))
  rw [hrender, parse_of_head hne hhead, goOn_pieces, List.nil_append]
  have hstop : ∀ string rest : Str, goOn string (' ' :: rest) = (string, ' ' :: rest) :=
    fun string rest => if_neg fun h => h.2 rfl
  rw [hstop, if_pos (List.cons_ne_nil _ _), List.tail_cons, parse_spaces]
  rfl

theorem head?_render_last (last : LastArgument) :
    last.render ≠ [] ∧ last.render.head? ≠ some ' ' := by
  obtain ⟨pieces, unfinished, hnonempty⟩ := last
  by_cases hpieces : pieces = []
  · subst hpieces
    obtain ⟨unfinished, rfl⟩ := Option.ne_none_iff_exists'.mp (hnonempty.resolve_left (· rfl))
    cases unfinished with
    | backslash => exact ⟨List.cons_ne_nil _ _, by simp [LastArgument.render, Unfinished.render]⟩
    | doubleQuoted letters dangling =>
        exact ⟨List.cons_ne_nil _ _, by simp [LastArgument.render, Unfinished.render]⟩
    | singleQuoted text hlegal =>
        exact ⟨List.cons_ne_nil _ _, by simp [LastArgument.render, Unfinished.render]⟩
  · exact head?_render_pieces hpieces _

theorem parse_last (last : LastArgument) : parse last.render = [last.value] := by
  obtain ⟨hne, hhead⟩ := head?_render_last last
  have hgo : goOn [] last.render = (last.value, []) := by
    rw [LastArgument.render, goOn_pieces, List.nil_append, LastArgument.value]
    cases last.unfinished with
    | none => exact (if_neg fun h => h.1 rfl).trans (congrArg (·, []) (List.append_nil _).symm)
    | some unfinished => exact goOn_unfinished unfinished _
  rw [parse_of_head hne hhead, hgo]
  rfl

/-- **A line is read as its arguments.** -/
theorem parse_render (line : CommandLine) : parse line.render = line.values := by
  obtain ⟨indent, arguments, last⟩ := line
  rw [CommandLine.render, CommandLine.values, List.append_assoc, parse_spaces]
  dsimp only
  induction arguments with
  | nil =>
      cases last with
      | none => rw [parse_eq]; rfl
      | some last => exact parse_last last
  | cons argument arguments ih =>
      rw [List.flatMap_cons, List.append_assoc, parse_argument, ih]
      rfl

end CommandLineArgumentParser

/-! ## Every text is a line -/

namespace CommandLine

open CommandLineArgumentParser

/-- How far letters go: up to one of the ends, or to the end of the text, which may be in the
middle of a letter. -/
theorem exists_letters (ends : List Char) (input : Str) :
    ∃ letters : List (Letter ends),
      (∃ c ∈ ends, ∃ rest, input = letters.flatMap Letter.render ++ c :: rest) ∨
        ∃ dangling : Bool, input =
          letters.flatMap Letter.render ++ if dangling then ['\\'] else [] := by
  -- along the loop of the parser, which stops where the letters do
  obtain ⟨string⟩ : Nonempty Str := ⟨[]⟩
  induction string, input using parseLetters.induct ends with
  | case1 => exact ⟨[], Or.inr ⟨false, rfl⟩⟩
  | case2 string c input hmem => exact ⟨[], Or.inl ⟨c, hmem, input, rfl⟩⟩
  | case3 string c input hmem hbackslash ih =>
      obtain ⟨letters, h⟩ := ih
      refine ⟨⟨c, false, fun _ => ⟨hbackslash, hmem⟩⟩ :: letters, ?_⟩
      rcases h with ⟨d, hd, rest, rfl⟩ | ⟨dangling, rfl⟩
      · exact Or.inl ⟨d, hd, rest, rfl⟩
      · exact Or.inr ⟨dangling, rfl⟩
  | case4 string c hmem hbackslash =>
      obtain rfl := not_not.mp hbackslash
      exact ⟨[], Or.inr ⟨true, rfl⟩⟩
  | case5 string c hmem hbackslash d input ih =>
      obtain rfl := not_not.mp hbackslash
      obtain ⟨letters, h⟩ := ih
      refine ⟨⟨d, true, fun h => nomatch h⟩ :: letters, ?_⟩
      rcases h with ⟨e, he, rest, rfl⟩ | ⟨dangling, rfl⟩
      · exact Or.inl ⟨e, he, rest, rfl⟩
      · exact Or.inr ⟨dangling, rfl⟩

theorem exists_piece {c : Char} (hspace : c ≠ ' ') (input : Str) :
    (∃ piece : Piece, ∃ rest, c :: input = piece.render ++ rest) ∨
      ∃ unfinished : Unfinished, c :: input = unfinished.render := by
  by_cases hdouble : c = '"'
  · subst hdouble
    obtain ⟨letters, ⟨d, hd, rest, rfl⟩ | ⟨dangling, rfl⟩⟩ := exists_letters ['"'] input
    · obtain rfl := List.mem_singleton.mp hd
      exact Or.inl ⟨.doubleQuoted letters, rest, by simp [Piece.render]⟩
    · exact Or.inr ⟨.doubleQuoted letters dangling, rfl⟩
  by_cases hsingle : c = '\''
  · subst hsingle
    by_cases hmem : '\'' ∈ input
    · obtain ⟨text, rest, rfl, hlegal⟩ := List.eq_append_cons_of_mem hmem
      exact Or.inl ⟨.singleQuoted text hlegal, rest, by simp [Piece.render]⟩
    · exact Or.inr ⟨.singleQuoted input hmem, rfl⟩
  by_cases hbackslash : c = '\\'
  · subst hbackslash
    cases input with
    | nil => exact Or.inr ⟨.backslash, rfl⟩
    | cons d rest => exact Or.inl ⟨.free ⟨d, true, fun h => nomatch h⟩, rest, rfl⟩
  · refine Or.inl ⟨.free ⟨c, false, fun _ => ⟨hbackslash, ?_⟩⟩, input, rfl⟩
    simp [endsFree, hspace, hdouble, hsingle]

theorem exists_argument {input : Str} (hne : input ≠ []) (hhead : input.head? ≠ some ' ') :
    (∃ pieces : List Piece, pieces ≠ [] ∧ ∃ after,
        input = pieces.flatMap Piece.render ++ ' ' :: after) ∨
      ∃ last : LastArgument, input = last.render := by
  induction hlength : input.length using Nat.strongRecOn generalizing input with
  | ind length ih =>
  obtain ⟨c, text, rfl⟩ := List.exists_cons_of_ne_nil hne
  rcases exists_piece (by simpa using hhead) text with ⟨piece, rest, heq⟩ | ⟨unfinished, heq⟩
  · rw [heq] at hlength ⊢
    by_cases hrest : rest = []
    · subst hrest
      exact Or.inr ⟨⟨[piece], none, Or.inl (List.cons_ne_nil _ _)⟩, by simp [LastArgument.render]⟩
    by_cases hspace : rest.head? = some ' '
    · obtain ⟨after, rfl⟩ := List.head?_eq_some_iff.mp hspace
      exact Or.inl ⟨[piece], List.cons_ne_nil _ _, after, by simp⟩
    have hpos : 0 < piece.render.length := by
      have hpiece := (head?_render_piece piece []).1
      rw [List.append_nil] at hpiece
      exact List.length_pos_iff.mpr hpiece
    rw [List.length_append] at hlength
    rcases ih rest.length (by omega) hrest hspace rfl with ⟨pieces, -, after, rfl⟩ | ⟨last, rfl⟩
    · exact Or.inl ⟨piece :: pieces, List.cons_ne_nil _ _, after, by simp⟩
    · exact Or.inr ⟨⟨piece :: last.pieces, last.unfinished, Or.inl (List.cons_ne_nil _ _)⟩, by
        simp [LastArgument.render]⟩
  · exact Or.inr ⟨⟨[], some unfinished, Or.inr (by simp)⟩, heq⟩

/-- **Every text is a line.** -/
theorem exists_render (input : Str) : ∃ line : CommandLine, line.render = input := by
  induction hlength : input.length using Nat.strongRecOn generalizing input with
  | ind length ih =>
  cases input with
  | nil => exact ⟨⟨0, [], none⟩, rfl⟩
  | cons c input =>
      by_cases hspace : c = ' '
      · subst hspace
        obtain ⟨line, rfl⟩ := ih input.length (by simp [← hlength]) input rfl
        exact ⟨{ line with indent := line.indent + 1 }, rfl⟩
      · rcases @exists_argument (c :: input) (List.cons_ne_nil _ _) (by simpa using hspace) with
          ⟨pieces, hpieces, after, heq⟩ | ⟨last, heq⟩
        · have hafter : after.length < length := by
            rw [← hlength, heq, List.length_append, List.length_cons]
            omega
          obtain ⟨line, rfl⟩ := ih after.length hafter after rfl
          refine ⟨⟨0, ⟨pieces, hpieces, line.indent⟩ :: line.arguments, line.last⟩, ?_⟩
          rw [heq]
          simp [CommandLine.render, Argument.render]
        · exact ⟨⟨0, [], some last⟩, heq.symm⟩

end CommandLine

/-- **The parser is exact**: whatever the text, its arguments are those of the line that is written
so. -/
theorem parse_eq_iff (input : Str) (arguments : List Str) :
    CommandLineArgumentParser.parse input = arguments ↔
      ∃ line : CommandLine, line.render = input ∧ line.values = arguments := by
  constructor
  · rintro rfl
    obtain ⟨line, rfl⟩ := CommandLine.exists_render input
    exact ⟨line, rfl, (CommandLineArgumentParser.parse_render line).symm⟩
  · rintro ⟨line, rfl, rfl⟩
    exact CommandLineArgumentParser.parse_render line

/-! ## Command lines and arguments in a database -/

/-- `clang::tooling::JSONCommandLineSyntax`. -/
inductive JSONCommandLineSyntax where
  | Windows
  | Gnu
  | AutoDetect
deriving DecidableEq

/-- What is not in `indexer/LlvmCommandLineParsing.cc`. -/
structure CommandLineEnv where
  /-- The platform is Windows. -/
  win32 : Bool
  /-- `llvm::cl::TokenizeWindowsCommandLine`. -/
  tokenizeWindowsCommandLine : Str → List Str

/-- `unescapeCommandLine`. -/
def unescapeCommandLine (env : CommandLineEnv) (dialect : JSONCommandLineSyntax)
    (escapedCommandLine : Str) : List Str :=
  let dialect := if dialect = .AutoDetect then if env.win32 then .Windows else .Gnu else dialect
  if dialect = .Windows then env.tokenizeWindowsCommandLine escapedCommandLine
  else CommandLineArgumentParser.parse escapedCommandLine

open Json

/-- The same member, or a command line and the list of its arguments. -/
inductive SameMember : Str × Json → Str × Json → Prop where
  | refl (member : Str × Json) : SameMember member member
  | commandLine (line : CommandLine) :
      SameMember ("command".toList, .string line.render)
        ("arguments".toList, .array (line.values.map .string))

/-- The entries of the two databases are the same, apart from how arguments are given. -/
def SameEntries (database database' : Json) : Prop :=
  List.Forall₂ (List.Forall₂ SameMember) (objectsOf database) (objectsOf database')

theorem ofText_command : Key.ofText "command".toList = .Command := by decide

theorem ofText_arguments : Key.ofText "arguments".toList = .Arguments := by decide

theorem SameMember.eq_of_ne {member member' : Str × Json} (h : SameMember member member')
    (hne : Key.ofText member.1 ≠ .Command) : member' = member := by
  cases h with
  | refl => rfl
  | commandLine line => exact absurd ofText_command hne

theorem sameMembers_eq {members members' : List (Str × Json)}
    (h : List.Forall₂ SameMember members members') (hnot : Key.Command ∉ keys members) :
    members' = members := by
  induction h with
  | nil => rfl
  | @cons member member' members members' hfirst _ ih =>
      have hkeys : Key.Command ≠ Key.ofText member.1 ∧ Key.Command ∉ keys members := by
        rw [← not_or]
        exact fun hmem => hnot (List.mem_cons.mpr hmem)
      rw [hfirst.eq_of_ne (Ne.symm hkeys.1), ih hkeys.2]

/-- In a plain object, at most one member is replaced. -/
theorem sameMembers_cases {members members' : List (Str × Json)} (hplain : IsPlain members)
    (h : List.Forall₂ SameMember members members') :
    members' = members ∨ ∃ (line : CommandLine) (others : List (Str × Json)),
      members.Perm (("command".toList, .string line.render) :: others) ∧
        members'.Perm (("arguments".toList, .array (line.values.map .string)) :: others) := by
  induction h with
  | nil => exact Or.inl rfl
  | @cons member member' members members' hfirst hrest ih =>
      cases hfirst with
      | refl =>
          refine (ih hplain.tail).imp (congrArg _) ?_
          rintro ⟨line, others, hperm, hperm'⟩
          exact ⟨line, member :: others, (hperm.cons member).trans (.swap _ _ _),
            (hperm'.cons member).trans (.swap _ _ _)⟩
      | commandLine line =>
          have hnot : Key.Command ∉ keys members := (List.nodup_cons.mp hplain.nodup).1
          exact Or.inr ⟨line, members, .refl _, by rw [sameMembers_eq hrest hnot]⟩

theorem IsPlain.arguments_of_command {text : Str} {others : List (Str × Json)}
    (h : IsPlain (("command".toList, .string text) :: others)) (value : Json) :
    IsPlain (("arguments".toList, value) :: others) := by
  have hcommand : Key.Command ∉ keys others := (List.nodup_cons.mp h.nodup).1
  have harguments : Key.Arguments ∉ keys others :=
    fun hmem => h.not_both ⟨List.mem_cons_self, List.mem_cons_of_mem _ hmem⟩
  refine ⟨?_, List.nodup_cons.mpr ⟨harguments, h.tail.nodup⟩, ?_⟩
  · intro hmem
    rcases List.mem_cons.mp hmem with heq | hrest
    · cases heq.trans ofText_arguments
    · exact h.tail.recognised hrest
  · rintro ⟨hmem, -⟩
    rcases List.mem_cons.mp hmem with heq | hrest
    · cases heq.trans ofText_arguments
    · exact hcommand hrest

theorem texts_strings (strings : List Str) : texts (.array (strings.map .string)) = strings := by
  show (strings.map Json.string).filterMap _ = strings
  rw [List.filterMap_map]
  exact List.filterMap_some

/-- The list of the arguments is as good as the command line that is split into them. -/
theorem commandOf_arguments {unescape : Str → List Str} {text : Str}
    {others : List (Str × Json)} (h : IsPlain (("command".toList, .string text) :: others)) :
    commandOf unescape (("arguments".toList, .array ((unescape text).map .string)) :: others) =
      commandOf unescape (("command".toList, .string text) :: others) := by
  have hcommand : valuesOf .Command others = [] :=
    valuesOf_nil_of_notMem (List.nodup_cons.mp h.nodup).1
  have harguments : valuesOf .Arguments others = [] :=
    valuesOf_nil_of_notMem fun hmem =>
      h.not_both ⟨List.mem_cons_self, List.mem_cons_of_mem _ hmem⟩
  have hself := valuesOf_cons_self (("command".toList, .string text) : Str × Json) others
  have hself' := valuesOf_cons_self
    (("arguments".toList, .array ((unescape text).map .string)) : Str × Json) others
  dsimp only at hself hself'
  rw [ofText_command, hcommand, List.append_nil] at hself
  rw [ofText_arguments, harguments, List.append_nil, texts_strings] at hself'
  have hothers : ∀ key, Key.Command ≠ key → ∀ value,
      valuesOf key (("command".toList, value) :: others) = valuesOf key others :=
    fun key hne value => valuesOf_cons_of_ne (fun heq => hne (ofText_command.symm.trans heq)) others
  have hothers' : ∀ key, Key.Arguments ≠ key → ∀ value,
      valuesOf key (("arguments".toList, value) :: others) = valuesOf key others :=
    fun key hne value =>
      valuesOf_cons_of_ne (fun heq => hne (ofText_arguments.symm.trans heq)) others
  unfold commandOf overlay
  rw [hself, hself', hothers .Directory (by simp), hothers .File (by simp),
    hothers' .Directory (by simp), hothers' .File (by simp), hothers' .Command (by simp), hcommand]
  rfl

/-- **A command line is as good as the list of its arguments.**  If the entries of two accepted
databases differ only in whether the arguments are given as a list, or as a command line, however
quoted, both produce the same commands. -/
theorem produces_sameEntries {validation : ValidationOptions} {presentKeys presentKeys' : UInt32}
    {database database' : Json} {count count' : Nat}
    (haccepted : validateAndCountJobs validation presentKeys database = some count)
    (haccepted' : validateAndCountJobs validation presentKeys' database' = some count')
    (hplain : ∀ members ∈ objectsOf database, IsPlain members)
    (hsame : SameEntries database database') {cl : CommandLineEnv} (hgnu : cl.win32 = false)
    {env : ReaderEnv} (henv : env.unescapeCommandLine = unescapeCommandLine cl .AutoDetect)
    (options : ParseOptions) (commands : List CommandObject) :
    Produces env options (StreamingParser.initializeParser options database) commands ↔
      Produces env options (StreamingParser.initializeParser options database') commands := by
  obtain ⟨objects, rfl, -, hmembers, -⟩ := validateAndCountJobs_eq_some_iff.mp haccepted
  obtain ⟨objects', rfl, -, hmembers', -⟩ := validateAndCountJobs_eq_some_iff.mp haccepted'
  unfold SameEntries at hsame
  rw [objectsOf_objects] at hplain
  rw [objectsOf_objects, objectsOf_objects] at hsame
  have hsplit : ∀ line : CommandLine, env.unescapeCommandLine line.render = line.values := by
    intro line
    rw [henv, unescapeCommandLine, hgnu]
    exact CommandLineArgumentParser.parse_render line
  have heffects : StreamingParser.SameEffects env objects objects' := by
    clear haccepted haccepted'
    induction hsame with
    | nil => exact .nil
    | @cons members members' _ _ hfirst _ ih =>
        obtain ⟨hhead, htail⟩ := List.forall_mem_cons.mp hmembers
        obtain ⟨hhead', htail'⟩ := List.forall_mem_cons.mp hmembers'
        obtain ⟨hplain, hplains⟩ := List.forall_mem_cons.mp hplain
        have hcommand : IsPlain members' ∧ commandOf env.unescapeCommandLine members' =
            commandOf env.unescapeCommandLine members := by
          rcases sameMembers_cases hplain hfirst with rfl | ⟨line, others, hperm, hperm'⟩
          · exact ⟨hplain, rfl⟩
          · have hplain' := (hplain.perm hperm).arguments_of_command
              (.array (line.values.map .string))
            have heq := @commandOf_arguments env.unescapeCommandLine _ _ (hplain.perm hperm)
            rw [hsplit] at heq
            refine ⟨hplain'.perm hperm'.symm, ?_⟩
            rw [commandOf_perm hplain hperm, ← heq]
            exact (commandOf_perm hplain' hperm'.symm).symm
        refine .cons ⟨validation, hhead⟩ ⟨validation, hhead'⟩
          (objectEffect_eq_commandOf hplain hhead) ?_ (ih hplains htail htail')
        rw [objectEffect_eq_commandOf hcommand.1 hhead', hcommand.2]
  exact ⟨StreamingParser.produces_of_same (StreamingParser.sameParsers_initializeParser heffects),
    StreamingParser.produces_of_same
      (StreamingParser.sameParsers_initializeParser heffects.symm)⟩

/-- An entry whose source file has a space in its name. -/
def entryWith (arguments : Str × Json) : List (Str × Json) :=
  [("directory".toList, .string "/d".toList), ("file".toList, .string "a b.cc".toList), arguments]

/-- A compiler, and a file in quotes. -/
def quotedLine : CommandLine where
  indent := 0
  arguments := [⟨[.free ⟨'c', false, by decide⟩, .free ⟨'c', false, by decide⟩],
    List.cons_ne_nil _ _, 0⟩]
  last := some ⟨[.singleQuoted "a b.cc".toList (by decide)], none, Or.inl (List.cons_ne_nil _ _)⟩

/-- A platform other than Windows. -/
def gnuEnv : CommandLineEnv where
  win32 := false
  tokenizeWindowsCommandLine := fun _ => []

theorem produces_sameEntries_quotedLine : ∃ commands,
    commands.map CommandObject.arguments = [["cc".toList, "a b.cc".toList]] ∧
      Produces (StreamingParser.openEnv (unescapeCommandLine gnuEnv .AutoDetect))
        (StreamingParser.openOptions 1)
        (StreamingParser.initializeParser (StreamingParser.openOptions 1)
          (.array [.object (entryWith ("command".toList, .string quotedLine.render))]))
        commands := by
  set entry := entryWith ("command".toList, .string quotedLine.render) with hentry
  set entry' := entryWith ("arguments".toList, .array (quotedLine.values.map .string)) with hentry'
  have haccepted : validateAndCountJobs ⟨true⟩ 0 (.array [.object entry]) = some 1 := by decide
  have haccepted' : validateAndCountJobs ⟨true⟩ 0 (.array [.object entry']) = some 1 := by decide
  have hsame : SameEntries (.array [.object entry]) (.array [.object entry']) :=
    .cons (.cons (.refl _) (.cons (.refl _) (.cons (.commandLine quotedLine) .nil))) .nil
  have hplain : ∀ members ∈ objectsOf (.array [.object entry]), IsPlain members := by
    intro members hmem
    obtain rfl := List.mem_singleton.mp hmem
    exact ⟨by decide, by decide, by decide⟩
  have hmembers : ∀ members ∈ [entry'], StreamingParser.AreMembers members :=
    areMembers_of_accepted haccepted'
  have hiff := fun options commands => @produces_sameEntries _ _ _ _ _ _ _ haccepted haccepted'
    hplain hsame gnuEnv rfl (StreamingParser.openEnv (unescapeCommandLine gnuEnv .AutoDetect)) rfl
    options commands
  refine ⟨_, ?_, (hiff _ _).mpr (StreamingParser.produces_readable hmembers)⟩
  decide

end Compdb

end ScipClang
