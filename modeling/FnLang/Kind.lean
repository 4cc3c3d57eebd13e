/- # FnLang.Kind — the kinds of tokens, their spellings and their binding strength.

Every operator, separator and reserved word has one kind and one or more fixed spellings; the
remaining kinds stand for open classes of lexemes.  A token list may also carry kinds that the
language does not know.  They are kept by name (`Kind.foreign`), and no construct begins or goes on
with one.
-/

namespace FnLang

/-- The kind of a token. -/
inductive Kind where
  | plus | minus | asterisk | slash | bang | assign | eq | notEq | lt | gt | and | or
  | lparen | rparen | lbrace | rbrace | lbracket | rbracket | comma | semicolon | colon
  | letWord | returnWord | ifWord | elseWord | fnWord
  | int | float | string | boolean | ident | illegal | eof
  | foreign (name : String)
  deriving DecidableEq, Repr

namespace Kind

/-- The kinds of the language. -/
def all : List Kind :=
  [plus, minus, asterisk, slash, bang, assign, eq, notEq, lt, gt, and, or,
   lparen, rparen, lbrace, rbrace, lbracket, rbracket, comma, semicolon, colon,
   letWord, returnWord, ifWord, elseWord, fnWord,
   int, float, string, boolean, ident, illegal, eof]

/-- The name a kind has in token listings and messages. -/
def name : Kind → String
  | plus => "PLUS" | minus => "MINUS" | asterisk => "ASTERISK" | slash => "SLASH"
  | bang => "BANG" | assign => "ASSIGN" | eq => "EQ" | notEq => "NOT_EQ"
  | lt => "LT" | gt => "GT" | and => "AND" | or => "OR"
  | lparen => "LPAREN" | rparen => "RPAREN" | lbrace => "LBRACE" | rbrace => "RBRACE"
  | lbracket => "LBRACKET" | rbracket => "RBRACKET"
  | comma => "COMMA" | semicolon => "SEMICOLON" | colon => "COLON"
  | letWord => "LET" | returnWord => "RETURN" | ifWord => "IF" | elseWord => "ELSE"
  | fnWord => "FUNCTION"
  | int => "INT" | float => "FLOAT" | string => "STRING" | boolean => "BOOLEAN"
  | ident => "IDENT" | illegal => "ILLEGAL" | eof => "EOF"
  | foreign name => name

/-- The kind with a name; names outside the language give foreign kinds. -/
def ofName (s : String) : Kind :=
  (all.find? fun k => k.name == s).getD (foreign s)

/-- A kind of the language, as opposed to a foreign one. -/
def isKnown (k : Kind) : Bool :=
  all.contains k

/-! ## Fixed spellings -/

/-- The spellings of the operators. -/
def operators : List (List Char × Kind) :=
  [(['+'], plus), (['-'], minus), (['*'], asterisk), (['/'], slash), (['!'], bang),
   (['='], assign), (['=', '='], eq), (['!', '='], notEq), (['<'], lt), (['>'], gt),
   (['&', '&'], and), (['|', '|'], or)]

/-- The spellings of the separators. -/
def separators : List (List Char × Kind) :=
  [(['('], lparen), ([')'], rparen), (['\x7b'], lbrace), (['\x7d'], rbrace),
   (['['], lbracket), ([']'], rbracket), ([','], comma), ([';'], semicolon), ([':'], colon)]

/-- The operators and separators, none longer than two characters. -/
def symbols : List (List Char × Kind) :=
  operators ++ separators

/-- The reserved words. -/
def reserved : List (List Char × Kind) :=
  [(['l', 'e', 't'], letWord), (['r', 'e', 't', 'u', 'r', 'n'], returnWord),
   (['i', 'f'], ifWord), (['e', 'l', 's', 'e'], elseWord), (['f', 'n'], fnWord),
   (['t', 'r', 'u', 'e'], boolean), (['f', 'a', 'l', 's', 'e'], boolean)]

/-- The kind of a word: a reserved word's own kind, and a name otherwise. -/
def ofWord (word : List Char) : Kind :=
  (reserved.lookup word).getD ident

/-! ## Operators -/

/-- The operators that stand before their operand. -/
def unaryOperators : List Kind := [bang, minus]

/-- The operators that stand between their operands. -/
def binaryOperators : List Kind := [plus, minus, asterisk, slash, eq, notEq, lt, gt]

def isUnaryOperator (k : Kind) : Bool := unaryOperators.contains k

def isBinaryOperator (k : Kind) : Bool := binaryOperators.contains k

end Kind

/-! ## Priorities -/

/-- How strongly an operator binds its operands, weakest first. -/
inductive Priority where
  | lowest | equality | comparison | sum | product | unary | call
  deriving DecidableEq, Repr

namespace Priority

/-- The priorities in ascending order. -/
def all : List Priority := [lowest, equality, comparison, sum, product, unary, call]

/-- The rank of a priority, counted from one. -/
def level : Priority → Int
  | lowest => 1 | equality => 2 | comparison => 3 | sum => 4 | product => 5 | unary => 6 | call => 7

def name : Priority → String
  | lowest => "LOWEST" | equality => "EQUALS" | comparison => "LESSGREATER" | sum => "SUM"
  | product => "PRODUCT" | unary => "PREFIX" | call => "CALL"

end Priority

/-- The binding strength of a kind that stands after an operand; `lowest` for every kind that never
continues an expression. -/
def Kind.priority : Kind → Priority
  | .eq | .notEq => .equality
  | .lt | .gt => .comparison
  | .plus | .minus => .sum
  | .asterisk | .slash => .product
  | .lparen => .call
  | _ => .lowest

/-- The kinds that bind more than nothing are the binary operators and the opening parenthesis. -/
theorem Kind.lowest_lt_priority_iff (k : Kind) :
    Priority.lowest.level < k.priority.level ↔ k.isBinaryOperator = true ∨ k = .lparen := by
  cases k with
  | foreign name => simp [priority, isBinaryOperator, binaryOperators]
  | _ => decide

end FnLang
