import LambdaArrow.Sandbox.Script.Lexeme

/-! Scripts are read line by line, so that the lines before a wrong one are run. Every step below takes
    a fuel that is larger than the number of lexemes left, times the depth of the grammar. -/

namespace LambdaArrow.Script

/-- Something that may not stand where it stands. -/
structure Unexpected where
  line : Nat
  message : Text

/-- Words that have a meaning of their own where a command may start. -/
def keywords : List Text :=
  ["if".toList, "then".toList, "elif".toList, "else".toList, "fi".toList, "while".toList,
    "until".toList, "for".toList, "do".toList, "done".toList, "case".toList, "esac".toList,
    ['\x7b'], ['\x7d'], ['!']]

/-- The keyword or operator that a lexeme is. -/
def Shape.mark? : Shape → Option Text
  | .word parts => (plain? parts).filter keywords.contains
  | .operator text => some text
  | _ => none

/-- The first lexeme; a script without one has ended. -/
def first (lexemes : List Lexeme) : Lexeme := lexemes.headD ⟨.ending, 1⟩

/-- Text in double quotes. -/
def inQuotes (text : Text) : Text := '"' :: text ++ ['"']

/-- What a lexeme is called in a complaint. -/
def Shape.called (shape : Shape) : Text :=
  match shape with
  | .newline => "newline".toList
  | .ending => "end of file".toList
  | .redirect .. => "redirection".toList
  | _ => (shape.mark?).elim "word".toList inQuotes

/-- Refuses the first lexeme, and tells what should stand there instead, if that is known. -/
def refuse {α : Type} (lexemes : List Lexeme) (wanted : Option Text) :
    Except Unexpected (α × List Lexeme) :=
  let lexeme := first lexemes
  match lexeme.shape with
  | .broken message => .error ⟨lexeme.line, message⟩
  | shape =>
    let hint := wanted.elim [] fun text => " (expecting ".toList ++ inQuotes text ++ [')']
    .error ⟨lexeme.line, shape.called ++ " unexpected".toList ++ hint⟩

/-- Takes a keyword or operator. -/
def expect (mark : Text) (lexemes : List Lexeme) : Except Unexpected (Unit × List Lexeme) :=
  if (first lexemes).shape.mark? = some mark then .ok ((), lexemes.tail)
  else refuse lexemes (some mark)

/-- Skips ends of lines. -/
def skipLines (lexemes : List Lexeme) : List Lexeme :=
  lexemes.dropWhile fun lexeme => lexeme.shape = .newline

/-- The name and the value of a word that assigns. -/
def assignment? (word : Word) : Option (Text × Word) :=
  let name := word.takeWhile fun
    | .char c false => isNameChar c
    | _ => false
  match plain? name, word.drop name.length with
  | some (c :: cs), .char '=' false :: value => if c.isDigit then none else some (c :: cs, value)
  | _, _ => none

/-- The name that a word gives to a function. -/
def functionName? (word : Word) : Option Text :=
  (plain? word).filter fun name => name.all isNameChar && !(name.head?.any Char.isDigit)

/-- The words at the start. -/
def leadingWords : List Lexeme → List Word × List Lexeme
  | ⟨.word parts, _⟩ :: rest =>
    let (words, rest) := leadingWords rest
    (parts :: words, rest)
  | rest => ([], rest)

/-- The redirections at the start. -/
def leadingRedirections : List Lexeme → List Redirection × List Lexeme
  | ⟨.redirect stream direction, _⟩ :: ⟨.word parts, _⟩ :: rest =>
    let (redirections, rest) := leadingRedirections rest
    (⟨stream, direction, parts⟩ :: redirections, rest)
  | rest => ([], rest)

/-- A command with its redirections, if it has any. -/
def withRedirections (body : Command) (redirections : List Redirection) : Command :=
  if redirections = [] then body else .redirected body redirections

/-- The words and redirections behind the first word of a simple command. -/
def wordsAfter : List Lexeme → List Word × List Redirection × List Lexeme
  | ⟨.redirect stream direction, _⟩ :: ⟨.word parts, _⟩ :: rest =>
    let (words, redirections, rest) := wordsAfter rest
    (words, ⟨stream, direction, parts⟩ :: redirections, rest)
  | ⟨.word parts, _⟩ :: rest =>
    let (words, redirections, rest) := wordsAfter rest
    (parts :: words, redirections, rest)
  | rest => ([], [], rest)

/-- The parts of a simple command: assignments, words and redirections, in any order. -/
def simpleParts : List Lexeme →
    List (Text × Word) × List Word × List Redirection × List Lexeme
  | ⟨.redirect stream direction, _⟩ :: ⟨.word parts, _⟩ :: rest =>
    let (assignments, words, redirections, rest) := simpleParts rest
    (assignments, words, ⟨stream, direction, parts⟩ :: redirections, rest)
  | ⟨.word parts, _⟩ :: rest =>
    match assignment? parts with
    | some assignment =>
      let (assignments, words, redirections, rest) := simpleParts rest
      (assignment :: assignments, words, redirections, rest)
    | none =>
      let (words, redirections, rest) := wordsAfter rest
      ([], parts :: words, redirections, rest)
  | rest => ([], [], [], rest)

/-- Reads a simple command. -/
def simple (lexemes : List Lexeme) : Except Unexpected (Command × List Lexeme) :=
  let (assignments, words, redirections, rest) := simpleParts lexemes
  if assignments = [] ∧ words = [] ∧ redirections = [] then refuse lexemes none
  else
    .ok (withRedirections (.simple (first lexemes).line assignments words) redirections, rest)

/-- Reads the patterns of a case up to the parenthesis behind them. -/
def patterns : List Lexeme → Except Unexpected (List Word × List Lexeme)
  | ⟨.word parts, _⟩ :: ⟨.operator ['|'], _⟩ :: rest => do
    let (words, rest) ← patterns rest
    return (parts :: words, rest)
  | ⟨.word parts, _⟩ :: ⟨.operator [')'], _⟩ :: rest => .ok ([parts], rest)
  | ⟨.word _, _⟩ :: rest => refuse rest (some [')'])
  | lexemes => refuse lexemes none

mutual

/-- Reads commands up to one of the marks in `closers`, which stays. -/
def list (fuel : Nat) (closers : List Text) (lexemes : List Lexeme) :
    Except Unexpected (Command × List Lexeme) :=
  match fuel with
  | 0 => refuse lexemes none
  | fuel + 1 =>
    let lexemes := skipLines lexemes
    let closes := fun (lexemes : List Lexeme) =>
      ((first lexemes).shape.mark?.map closers.contains).getD false
    if closes lexemes then .ok (.nothing, lexemes)
    else if (first lexemes).shape = .ending then refuse lexemes closers.getLast?
    else do
      let (command, rest) ← andOr fuel lexemes
      match (first rest).shape with
      | .newline =>
        let (later, rest) ← list fuel closers rest
        return (.sequence command later, rest)
      | shape =>
        if shape = .operator [';'] ∨ shape = .operator ['&'] then
          let (later, rest) ← list fuel closers rest.tail
          return (.sequence command later, rest)
        else if closes rest then return (command, rest)
        else refuse rest (if shape = .ending then closers.getLast? else none)

/-- Reads pipelines joined by `&&` and `||`. -/
def andOr (fuel : Nat) (lexemes : List Lexeme) : Except Unexpected (Command × List Lexeme) :=
  match fuel with
  | 0 => refuse lexemes none
  | fuel + 1 => do
    let (command, rest) ← pipeline fuel lexemes
    andOrRest fuel command rest

/-- Joins a command with the pipelines behind it. -/
def andOrRest (fuel : Nat) (command : Command) (lexemes : List Lexeme) :
    Except Unexpected (Command × List Lexeme) :=
  match fuel with
  | 0 => refuse lexemes none
  | fuel + 1 =>
    if (first lexemes).shape = .operator "&&".toList then do
      let (second, rest) ← pipeline fuel (skipLines lexemes.tail)
      andOrRest fuel (.both command second) rest
    else if (first lexemes).shape = .operator "||".toList then do
      let (second, rest) ← pipeline fuel (skipLines lexemes.tail)
      andOrRest fuel (.either command second) rest
    else .ok (command, lexemes)

/-- Reads commands joined by pipes, perhaps negated. -/
def pipeline (fuel : Nat) (lexemes : List Lexeme) : Except Unexpected (Command × List Lexeme) :=
  match fuel with
  | 0 => refuse lexemes none
  | fuel + 1 =>
    if (first lexemes).shape.mark? = some ['!'] then do
      let (command, rest) ← pipeline fuel lexemes.tail
      return (.negated command, rest)
    else do
      let (left, rest) ← command fuel lexemes
      if (first rest).shape = .operator ['|'] then
        let (right, rest) ← pipeline fuel (skipLines rest.tail)
        return (.piped left right, rest)
      else return (left, rest)

/-- Reads one command. -/
def command (fuel : Nat) (lexemes : List Lexeme) : Except Unexpected (Command × List Lexeme) :=
  match fuel with
  | 0 => refuse lexemes none
  | fuel + 1 => do
    match (first lexemes).shape.mark? with
    | some mark =>
      let (body, rest) ← compound fuel mark lexemes
      let (redirections, rest) := leadingRedirections rest
      return (withRedirections body redirections, rest)
    | none =>
      match lexemes with
      | ⟨.word name, line⟩ :: ⟨.operator ['('], _⟩ :: rest =>
        let (_, rest) ← expect [')'] rest
        match functionName? name with
        | none => .error ⟨line, "Bad function name".toList⟩
        | some name =>
          let (body, rest) ← command fuel (skipLines rest)
          return (.function name body, rest)
      | _ => simple lexemes

/-- Reads a command that starts with a keyword or a parenthesis. -/
def compound (fuel : Nat) (mark : Text) (lexemes : List Lexeme) :
    Except Unexpected (Command × List Lexeme) :=
  match fuel with
  | 0 => refuse lexemes none
  | fuel + 1 =>
    if mark = "if".toList then branches fuel lexemes.tail
    else if mark = "while".toList ∨ mark = "until".toList then do
      let (condition, rest) ← list fuel ["do".toList] lexemes.tail
      let (_, rest) ← expect "do".toList rest
      let (body, rest) ← list fuel ["done".toList] rest
      return (.loop (mark = "while".toList) condition body, rest.tail)
    else if mark = "for".toList then forLoop fuel lexemes.tail
    else if mark = "case".toList then
      match lexemes.tail with
      | ⟨.word subject, _⟩ :: rest =>
        match skipLines rest with
        | ⟨.word parts, line⟩ :: rest =>
          if plain? parts = some "in".toList then cases fuel subject rest
          else refuse (⟨.word parts, line⟩ :: rest) (some "in".toList)
        | rest => refuse rest (some "in".toList)
      | rest => refuse rest none
    else if mark = ['\x7b'] then do
      let (body, rest) ← list fuel [['\x7d']] lexemes.tail
      return (body, rest.tail)
    else if mark = ['('] then do
      let (body, rest) ← list fuel [[')']] lexemes.tail
      return (.subshell body, rest.tail)
    else refuse lexemes none

/-- Reads a conditional behind its `if` or `elif`. -/
def branches (fuel : Nat) (lexemes : List Lexeme) : Except Unexpected (Command × List Lexeme) :=
  match fuel with
  | 0 => refuse lexemes none
  | fuel + 1 => do
    let (condition, rest) ← list fuel ["then".toList] lexemes
    let (_, rest) ← expect "then".toList rest
    let (consequence, rest) ← list fuel ["elif".toList, "else".toList, "fi".toList] rest
    let mark := (first rest).shape.mark?
    if mark = some "elif".toList then
      let (alternative, rest) ← branches fuel rest.tail
      return (.conditional condition consequence alternative, rest)
    else if mark = some "else".toList then
      let (alternative, rest) ← list fuel ["fi".toList] rest.tail
      return (.conditional condition consequence alternative, rest.tail)
    else return (.conditional condition consequence .nothing, rest.tail)

/-- Reads a loop over words behind its `for`. -/
def forLoop (fuel : Nat) (lexemes : List Lexeme) : Except Unexpected (Command × List Lexeme) :=
  match fuel with
  | 0 => refuse lexemes none
  | fuel + 1 =>
    match lexemes with
    | ⟨.word name, _⟩ :: rest => do
      let rest := skipLines rest
      let (values, rest) := match rest with
        | ⟨.word parts, line⟩ :: more =>
          if plain? parts = some "in".toList then
            let (words, more) := leadingWords more
            (some words, more)
          else (none, ⟨.word parts, line⟩ :: more)
        | rest => (none, rest)
      let rest := if (first rest).shape = .operator [';'] then rest.tail else rest
      let (_, rest) ← expect "do".toList (skipLines rest)
      let (body, rest) ← list fuel ["done".toList] rest
      return (.each ((plain? name).getD []) values body, rest.tail)
    | rest => refuse rest none

/-- Reads the cases behind the `in` of a choice. -/
def cases (fuel : Nat) (subject : Word) (lexemes : List Lexeme) :
    Except Unexpected (Command × List Lexeme) :=
  match fuel with
  | 0 => refuse lexemes none
  | fuel + 1 =>
    let lexemes := skipLines lexemes
    if (first lexemes).shape.mark? = some "esac".toList then .ok (.nothing, lexemes.tail)
    else do
      let lexemes := if (first lexemes).shape = .operator ['('] then lexemes.tail else lexemes
      let (words, rest) ← patterns lexemes
      let (body, rest) ← list fuel ["esac".toList, ";;".toList] rest
      let rest := if (first rest).shape = .operator ";;".toList then rest.tail else rest
      let (otherwise, rest) ← cases fuel subject rest
      return (.choice subject words body otherwise, rest)

end

/-- Reads commands up to the end of a line. -/
def line (fuel : Nat) (lexemes : List Lexeme) : Except Unexpected (Command × List Lexeme) :=
  match fuel with
  | 0 => refuse lexemes none
  | fuel + 1 =>
    match (first lexemes).shape with
    | .newline => .ok (.nothing, lexemes.tail)
    | .ending => .ok (.nothing, [])
    | _ => do
      let (command, rest) ← andOr fuel lexemes
      let shape := (first rest).shape
      if shape = .operator [';'] ∨ shape = .operator ['&'] then
        let (later, rest) ← line fuel rest.tail
        return (.sequence command later, rest)
      else if shape = .newline ∨ shape = .ending then
        let (later, rest) ← line fuel rest
        return (.sequence command later, rest)
      else refuse rest none

/-- The lines of a script, up to a wrong one. -/
def lines (fuel : Nat) (lexemes : List Lexeme) : List (Except Unexpected Command) :=
  match fuel with
  | 0 => []
  | count + 1 =>
    let lexemes := skipLines lexemes
    if (first lexemes).shape = .ending then []
    else
      match line fuel lexemes with
      | .error unexpected => [.error unexpected]
      | .ok (command, rest) => .ok command :: lines count rest

/-- Reads a script. -/
def parse (script : Text) : List (Except Unexpected Command) :=
  let lexemes := lexemes script
  lines (8 * lexemes.length + 8) lexemes

end LambdaArrow.Script
