import ScriptTree.Text.Basic

/-!
# Fixed spellings

Tokens that are always written the same way: reserved words, punctuators, the
words that are reserved only in certain positions, and the opening of a
template hole.  Each has one spelling, kept as its list of characters so that
it can be compared with the text being read.
-/

namespace ScriptTree

/-- Words that can never be names.  The word `extends` counts among them only
in the dialect that reserves it. -/
inductive Keyword where
  | breakWord
  | caseWord
  | catchWord
  | classWord
  | constWord
  | continueWord
  | debuggerWord
  | defaultWord
  | deleteWord
  | doWord
  | elseWord
  | finallyWord
  | forWord
  | functionWord
  | ifWord
  | inWord
  | instanceofWord
  | letWord
  | newWord
  | returnWord
  | switchWord
  | throwWord
  | tryWord
  | typeofWord
  | varWord
  | voidWord
  | whileWord
  | extendsWord
  deriving DecidableEq

namespace Keyword

def chars : Keyword → Text
  | .breakWord => ['b', 'r', 'e', 'a', 'k']
  | .caseWord => ['c', 'a', 's', 'e']
  | .catchWord => ['c', 'a', 't', 'c', 'h']
  | .classWord => ['c', 'l', 'a', 's', 's']
  | .constWord => ['c', 'o', 'n', 's', 't']
  | .continueWord => ['c', 'o', 'n', 't', 'i', 'n', 'u', 'e']
  | .debuggerWord => ['d', 'e', 'b', 'u', 'g', 'g', 'e', 'r']
  | .defaultWord => ['d', 'e', 'f', 'a', 'u', 'l', 't']
  | .deleteWord => ['d', 'e', 'l', 'e', 't', 'e']
  | .doWord => ['d', 'o']
  | .elseWord => ['e', 'l', 's', 'e']
  | .finallyWord => ['f', 'i', 'n', 'a', 'l', 'l', 'y']
  | .forWord => ['f', 'o', 'r']
  | .functionWord => ['f', 'u', 'n', 'c', 't', 'i', 'o', 'n']
  | .ifWord => ['i', 'f']
  | .inWord => ['i', 'n']
  | .instanceofWord => ['i', 'n', 's', 't', 'a', 'n', 'c', 'e', 'o', 'f']
  | .letWord => ['l', 'e', 't']
  | .newWord => ['n', 'e', 'w']
  | .returnWord => ['r', 'e', 't', 'u', 'r', 'n']
  | .switchWord => ['s', 'w', 'i', 't', 'c', 'h']
  | .throwWord => ['t', 'h', 'r', 'o', 'w']
  | .tryWord => ['t', 'r', 'y']
  | .typeofWord => ['t', 'y', 'p', 'e', 'o', 'f']
  | .varWord => ['v', 'a', 'r']
  | .voidWord => ['v', 'o', 'i', 'd']
  | .whileWord => ['w', 'h', 'i', 'l', 'e']
  | .extendsWord => ['e', 'x', 't', 'e', 'n', 'd', 's']

def reserved : List Keyword :=
  [.breakWord, .caseWord, .catchWord, .classWord, .constWord, .continueWord, .debuggerWord,
    .defaultWord, .deleteWord, .doWord, .elseWord, .finallyWord, .forWord, .functionWord, .ifWord,
    .inWord, .instanceofWord, .letWord, .newWord, .returnWord, .switchWord, .throwWord, .tryWord,
    .typeofWord, .varWord, .voidWord, .whileWord]

/-- The reserved word with the given spelling. -/
def ofChars? (word : Text) : Option Keyword :=
  reserved.find? fun keyword => keyword.chars == word

end Keyword

inductive Punctuator where
  | shiftRightUnsignedAssign
  | ellipsis
  | strictEqual
  | strictUnequal
  | powerAssign
  | shiftLeftAssign
  | shiftRightAssign
  | shiftRightUnsigned
  | andAssign
  | orAssign
  | coalesceAssign
  | arrow
  | equal
  | unequal
  | lessEqual
  | greaterEqual
  | and
  | or
  | coalesce
  | increment
  | decrement
  | plusAssign
  | minusAssign
  | starAssign
  | slashAssign
  | percentAssign
  | bitAndAssign
  | bitOrAssign
  | bitXorAssign
  | power
  | shiftLeft
  | shiftRight
  | leftBrace
  | rightBrace
  | leftParen
  | rightParen
  | leftBracket
  | rightBracket
  | semicolon
  | comma
  | less
  | greater
  | plus
  | minus
  | star
  | slash
  | percent
  | ampersand
  | bar
  | caret
  | bang
  | tilde
  | question
  | colon
  | equals
  | dot
  | backtick
  deriving DecidableEq

namespace Punctuator

def chars : Punctuator → Text
  | .shiftRightUnsignedAssign => ['>', '>', '>', '=']
  | .ellipsis => ['.', '.', '.']
  | .strictEqual => ['=', '=', '=']
  | .strictUnequal => ['!', '=', '=']
  | .powerAssign => ['*', '*', '=']
  | .shiftLeftAssign => ['<', '<', '=']
  | .shiftRightAssign => ['>', '>', '=']
  | .shiftRightUnsigned => ['>', '>', '>']
  | .andAssign => ['&', '&', '=']
  | .orAssign => ['|', '|', '=']
  | .coalesceAssign => ['?', '?', '=']
  | .arrow => ['=', '>']
  | .equal => ['=', '=']
  | .unequal => ['!', '=']
  | .lessEqual => ['<', '=']
  | .greaterEqual => ['>', '=']
  | .and => ['&', '&']
  | .or => ['|', '|']
  | .coalesce => ['?', '?']
  | .increment => ['+', '+']
  | .decrement => ['-', '-']
  | .plusAssign => ['+', '=']
  | .minusAssign => ['-', '=']
  | .starAssign => ['*', '=']
  | .slashAssign => ['/', '=']
  | .percentAssign => ['%', '=']
  | .bitAndAssign => ['&', '=']
  | .bitOrAssign => ['|', '=']
  | .bitXorAssign => ['^', '=']
  | .power => ['*', '*']
  | .shiftLeft => ['<', '<']
  | .shiftRight => ['>', '>']
  | .leftBrace => ['\x7b']
  | .rightBrace => ['\x7d']
  | .leftParen => ['(']
  | .rightParen => [')']
  | .leftBracket => ['[']
  | .rightBracket => [']']
  | .semicolon => [';']
  | .comma => [',']
  | .less => ['<']
  | .greater => ['>']
  | .plus => ['+']
  | .minus => ['-']
  | .star => ['*']
  | .slash => ['/']
  | .percent => ['%']
  | .ampersand => ['&']
  | .bar => ['|']
  | .caret => ['^']
  | .bang => ['!']
  | .tilde => ['~']
  | .question => ['?']
  | .colon => [':']
  | .equals => ['=']
  | .dot => ['.']
  | .backtick => ['\x60']

/-- All punctuators, every one before its own proper beginnings, so that the
first match is the longest. -/
def longestFirst : List Punctuator :=
  [.shiftRightUnsignedAssign, .ellipsis, .strictEqual, .strictUnequal, .powerAssign,
    .shiftLeftAssign, .shiftRightAssign, .shiftRightUnsigned, .andAssign, .orAssign,
    .coalesceAssign, .arrow, .equal, .unequal, .lessEqual, .greaterEqual, .and, .or, .coalesce,
    .increment, .decrement, .plusAssign, .minusAssign, .starAssign, .slashAssign, .percentAssign,
    .bitAndAssign, .bitOrAssign, .bitXorAssign, .power, .shiftLeft, .shiftRight, .leftBrace,
    .rightBrace, .leftParen, .rightParen, .leftBracket, .rightBracket, .semicolon, .comma, .less,
    .greater, .plus, .minus, .star, .slash, .percent, .ampersand, .bar, .caret, .bang, .tilde,
    .question, .colon, .equals, .dot, .backtick]

/-- The longest punctuator a text starts with. -/
def longestAt? (text : Text) : Option Punctuator :=
  longestFirst.find? fun punctuator => punctuator.chars.isPrefixOf text

/-- Whether a slash after this punctuator opens a pattern: not after the
punctuators that can end an operand. -/
def allowsPatternAfter : Punctuator → Bool
  | .rightParen | .rightBracket | .increment | .decrement => false
  | _ => true

end Punctuator

/-- Words with a meaning of their own only in certain positions. -/
inductive ContextualWord where
  | asyncWord
  | awaitWord
  | ofWord
  | getWord
  | setWord
  | staticWord
  deriving DecidableEq

namespace ContextualWord

def chars : ContextualWord → Text
  | .asyncWord => ['a', 's', 'y', 'n', 'c']
  | .awaitWord => ['a', 'w', 'a', 'i', 't']
  | .ofWord => ['o', 'f']
  | .getWord => ['g', 'e', 't']
  | .setWord => ['s', 'e', 't']
  | .staticWord => ['s', 't', 'a', 't', 'i', 'c']

end ContextualWord

/-- Everything that is always written the same way. -/
inductive Spelling where
  | keyword (word : Keyword)
  | punctuator (sign : Punctuator)
  | contextual (word : ContextualWord)
  | holeOpen
  deriving DecidableEq

namespace Spelling

def chars : Spelling → Text
  | .keyword word => word.chars
  | .punctuator sign => sign.chars
  | .contextual word => word.chars
  | .holeOpen => ['$', '\x7b']

/-- A spelling as a string. -/
def text (spelling : Spelling) : String :=
  String.ofList spelling.chars

/-- The keyword or punctuator with the given characters. -/
def ofChars? (chars : Text) : Option Spelling :=
  ((Keyword.reserved ++ [Keyword.extendsWord]).find? (·.chars == chars)).map .keyword <|>
    (Punctuator.longestFirst.find? (·.chars == chars)).map .punctuator

end Spelling

end ScriptTree
