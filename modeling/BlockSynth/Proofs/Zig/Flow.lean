import BlockSynth.Proofs.Zig.Piece

/-! # The control flow of Zig text

Text is read into blocks: statements that only go on to the next one, choices between
branches, loops, and jumps out of loops. A text is refused if one of the control words
stands anywhere but at the beginning of a statement, or if a statement stands inside
an expression, so that no other way through it is overlooked.

On a path through a block every condition may turn out either way and every loop may
take any number of rounds. A path that ends is recorded by the statements that it
executes and the loop bodies that it enters.
-/
namespace BlockSynth.Zig

/-! ### Lexemes -/

/-- A token, with its text if it is a literal. -/
structure Lexeme where
  token : Token
  text : List Char := []
  deriving DecidableEq, Repr

def Mode.isQuoted : Mode → Bool
  | literal _ => true
  | escape _ => true
  | _ => false

structure Lexer where
  mode : Mode := .code
  /-- What has been read of the current literal. -/
  raw : List Char := []
  deriving DecidableEq, Repr

namespace Lexer

def step (lexer : Lexer) (c : Char) : Option (List Lexeme × Lexer) := do
  let (tokens, mode) ← lexer.mode.step c
  let raw := lexer.raw ++ [c]
  return (tokens.map fun token => ⟨token, if token = .literal then raw else []⟩,
    ⟨mode, if mode.isQuoted then raw else []⟩)

def run : Lexer → List Char → Option (List Lexeme × Lexer)
  | lexer, [] => some ([], lexer)
  | lexer, c :: rest => do
    let (lexemes, lexer) ← lexer.step c
    let (more, lexer) ← lexer.run rest
    return (lexemes ++ more, lexer)

end Lexer

def lexemes (text : List Char) : Option (List Lexeme) := do
  let (lexemes, lexer) ← Lexer.run {} text
  return lexemes ++ (← lexer.mode.finish).map ({ token := · })

/-! ### Blocks -/

inductive Jump
  | leave
  | resume
  deriving DecidableEq, Repr

/-- Statements in sequence. -/
inductive Block
  | done
  /-- A statement that goes on to the next one. -/
  | simple (code : List Lexeme) (next : Block)
  | jump (kind : Jump) (next : Block)
  | choice (first second next : Block)
  | loop (body next : Block)
  deriving DecidableEq, Repr

namespace Block

def append : Block → Block → Block
  | done, more => more
  | simple code next, more => simple code (next.append more)
  | jump kind next, more => jump kind (next.append more)
  | choice first second next, more => choice first second (next.append more)
  | loop body next, more => loop body (next.append more)

/-- The bodies of the loops, in the order in which they begin. -/
def loops : Block → List Block
  | done => []
  | simple _ next => next.loops
  | jump _ next => next.loops
  | choice first second next => first.loops ++ second.loops ++ next.loops
  | loop body next => body :: body.loops ++ next.loops

/-- A choice between several branches, the last one without a condition. -/
def choices : List Block → Block → Block
  | [], last => last
  | arm :: rest, last => choice arm (choices rest last) done

end Block

/-! ### Reading blocks -/

def Token.semicolon : Token := .symbol [';']

def Token.brace : Token := .opening '\x7b'

/-- The words that begin a loop. -/
def Token.isLoopWord (token : Token) : Bool :=
  token == .word ['w', 'h', 'i', 'l', 'e'] || token == .word ['f', 'o', 'r']

def Jump.ofToken? : Token → Option Jump
  | .word ['b', 'r', 'e', 'a', 'k'] => some .leave
  | .word ['c', 'o', 'n', 't', 'i', 'n', 'u', 'e'] => some .resume
  | _ => none

/-- The open brackets behind one more token of an expression. -/
def nest (opened : List Char) (token : Token) : Option (List Char) :=
  if token.isTame then
    match token, opened with
    | .opening bracket, opened => some (bracket :: opened)
    | .closing bracket, innermost :: rest =>
      if closer? innermost = some bracket then some rest else none
    | .closing _, [] => none
    | _, opened => some opened
  else none

/-- What a block is part of, with the statements before that. -/
inductive Frame
  | loop (before : Block)
  /-- A branch behind a condition, with the branches before it. -/
  | arm (before : Block) (arms : List Block)
  /-- The branch without a condition. -/
  | last (before : Block) (arms : List Block)
  deriving DecidableEq, Repr

inductive Phase
  | ready
  | simple (code : List Lexeme) (opened : List Char)
  /-- Behind the word that begins a loop. -/
  | loopHead (opened : List Char)
  /-- Behind `if`. -/
  | armHead (arms : List Block) (opened : List Char)
  | behindArm (arms : List Block)
  /-- Behind `else`. -/
  | otherwise (arms : List Block)
  | jumped (kind : Jump)
  deriving DecidableEq, Repr

structure Reading where
  frames : List Frame := []
  block : Block := .done
  phase : Phase := .ready
  deriving DecidableEq, Repr

namespace Reading

/-- Add statements to the block. -/
def add (reading : Reading) (more : Block) : Reading :=
  ⟨reading.frames, reading.block.append more, .ready⟩

/-- Begin a block inside. -/
def enter (reading : Reading) (frame : Frame) : Reading :=
  ⟨frame :: reading.frames, .done, .ready⟩

/-- End the innermost block. -/
def close (reading : Reading) : Option Reading :=
  match reading.frames with
  | [] => none
  | .loop before :: frames => some ⟨frames, before.append (.loop reading.block .done), .ready⟩
  | .arm before arms :: frames => some ⟨frames, before, .behindArm (arms ++ [reading.block])⟩
  | .last before arms :: frames =>
    some ⟨frames, before.append (.choices arms reading.block), .ready⟩

/-- The first token of a statement. -/
def start (reading : Reading) (lexeme : Lexeme) : Option Reading :=
  if lexeme.token = .closing '\x7d' then reading.close
  else if lexeme.token.isLoopWord then some { reading with phase := .loopHead [] }
  else if lexeme.token = .ifWord then some { reading with phase := .armHead [] [] }
  else if lexeme.token = .elseWord then none
  else match Jump.ofToken? lexeme.token with
    | some kind => some { reading with phase := .jumped kind }
    | none =>
      (nest [] lexeme.token).map fun opened => { reading with phase := .simple [lexeme] opened }

/-- A conditional that no `else` follows is over. -/
def settle (reading : Reading) : Reading :=
  match reading.phase with
  | .behindArm arms => reading.add (.choices arms .done)
  | _ => reading

def step (reading : Reading) (lexeme : Lexeme) : Option Reading :=
  match reading.phase with
  | .ready => reading.start lexeme
  | .simple code opened =>
    if lexeme.token = .semicolon ∧ opened = [] then some (reading.add (.simple code .done))
    else (nest opened lexeme.token).map fun opened =>
      { reading with phase := .simple (code ++ [lexeme]) opened }
  | .loopHead opened =>
    if lexeme.token = .brace ∧ opened = [] then some (reading.enter (.loop reading.block))
    else (nest opened lexeme.token).map fun opened => { reading with phase := .loopHead opened }
  | .armHead arms opened =>
    if lexeme.token = .brace ∧ opened = [] then some (reading.enter (.arm reading.block arms))
    else (nest opened lexeme.token).map fun opened => { reading with phase := .armHead arms opened }
  | .behindArm arms =>
    if lexeme.token = .elseWord then some { reading with phase := .otherwise arms }
    else reading.settle.start lexeme
  | .otherwise arms =>
    if lexeme.token = .ifWord then some { reading with phase := .armHead arms [] }
    else if lexeme.token = .brace then some (reading.enter (.last reading.block arms))
    else none
  | .jumped kind =>
    if lexeme.token = .semicolon then some (reading.add (.jump kind .done)) else none

def readAll (reading : Reading) (lexemes : List Lexeme) : Option Reading :=
  lexemes.foldlM step reading

/-- The block that has been read, unless something is still open. -/
def finish (reading : Reading) : Option Block :=
  match reading.settle with
  | ⟨[], block, .ready⟩ => some block
  | _ => none

end Reading

/-- The statements of a text. -/
def program? (text : List Char) : Option Block := do
  let reading ← Reading.readAll {} (← lexemes text)
  reading.finish

/-! ### Paths -/

inductive Event
  | did (code : List Lexeme)
  | entered (body : Block)
  deriving DecidableEq, Repr

/-- What happens on a path through a block, and the jump that it ends with if it does
not end at the end. -/
inductive Block.Runs : Block → List Event → Option Jump → Prop
  | done : Runs .done [] none
  | simple {code : List Lexeme} {next : Block} {trace : List Event} {exit : Option Jump} :
    Runs next trace exit → Runs (.simple code next) (.did code :: trace) exit
  | jump {kind : Jump} {next : Block} : Runs (.jump kind next) [] (some kind)
  | first {first second next : Block} {trace more : List Event} {exit : Option Jump} :
    Runs first trace none → Runs next more exit →
    Runs (.choice first second next) (trace ++ more) exit
  | first_jump {first second next : Block} {trace : List Event} {kind : Jump} :
    Runs first trace (some kind) → Runs (.choice first second next) trace (some kind)
  | second {first second next : Block} {trace more : List Event} {exit : Option Jump} :
    Runs second trace none → Runs next more exit →
    Runs (.choice first second next) (trace ++ more) exit
  | second_jump {first second next : Block} {trace : List Event} {kind : Jump} :
    Runs second trace (some kind) → Runs (.choice first second next) trace (some kind)
  | loop_over {body next : Block} {trace : List Event} {exit : Option Jump} :
    Runs next trace exit → Runs (.loop body next) trace exit
  | loop_left {body next : Block} {trace more : List Event} {exit : Option Jump} :
    Runs body trace (some .leave) → Runs next more exit →
      Runs (.loop body next) (.entered body :: (trace ++ more)) exit
  | loop_round {body next : Block} {trace more : List Event} {round exit : Option Jump} :
    Runs body trace round → round ≠ some .leave → Runs (.loop body next) more exit →
      Runs (.loop body next) (.entered body :: (trace ++ more)) exit

end BlockSynth.Zig
