import Toolchain32.Yaml.Position

/-!
# Faults

What keeps a text from being read as YAML: a problem at a position, and what was being read there. A
reader within a token tells its problem by the text that follows it (`Stop`); a `Fault` has
positions instead.
-/

namespace Toolchain32.Yaml

/-- What was being read. -/
inductive Context
  | nextToken
  | possibleKey
  | directive
  | versionDirective
  | tagDirective
  | handleMark
  | handleName
  | handleMeaning
  | anchorName
  | aliasName
  | tag
  | tagSuffix
  | blockScalar
  | quotedScalar
  | quotedEscape
  | plainScalar
  | node
  | blockNode
  | flowNode
  | blockSequence
  | blockMapping
  | flowSequence
  | flowMapping
  deriving DecidableEq, Repr

def Context.message : Context → String
  | nextToken => "while scanning for the next token"
  | possibleKey => "while scanning a simple key"
  | directive => "while scanning a directive"
  | versionDirective => "while scanning a %YAML directive"
  | tagDirective => "while scanning a %TAG directive"
  | handleMark => "while scanning a tag directive"
  | handleName => "while parsing a tag directive"
  | handleMeaning => "while parsing a %TAG directive"
  | anchorName => "while scanning an anchor"
  | aliasName => "while scanning an alias"
  | tag => "while scanning a tag"
  | tagSuffix => "while parsing a tag"
  | blockScalar => "while scanning a block scalar"
  | quotedScalar => "while scanning a quoted scalar"
  | quotedEscape => "while parsing a quoted scalar"
  | plainScalar => "while scanning a plain scalar"
  | node => "while parsing a node"
  | blockNode => "while parsing a block node"
  | flowNode => "while parsing a flow node"
  | blockSequence => "while parsing a block collection"
  | blockMapping => "while parsing a block mapping"
  | flowSequence => "while parsing a flow sequence"
  | flowMapping => "while parsing a flow mapping"

/-- What is wrong with a text. -/
inductive Problem
  /-- No token starts with the character. -/
  | strayCharacter
  /-- A key has no colon on its line, or the colon comes too late. -/
  | overdueColon
  | misplacedEntry
  | misplacedKey
  | misplacedValue
  | noDirectiveName
  | badDirectiveName
  | unknownDirective
  /-- More than blanks and a comment follows on the line. -/
  | noLineEnd
  | longVersion
  | noVersion
  | noVersionPoint
  | noGap
  | noGapOrLineEnd
  /-- The exclamation mark of a handle is missing. -/
  | noHandleMark
  | noName
  | unclosedTag
  | noTagSuffix
  | noOctet
  | badLeadingOctet
  | badTrailingOctet
  | zeroIndentation
  /-- A tab stands where a block scalar is indented. -/
  | indentingTab
  | markerInQuotes
  | unclosedQuotes
  | unknownEscape
  | noEscapeDigit
  | badEscapedCharacter
  /-- A tab stands where a further line of a plain scalar is indented. -/
  | plainTab
  | plainColon
  | undefinedHandle
  | noContent
  | noBlockEntry
  | noBlockKey
  | unseparatedItem
  | unseparatedEntry
  | repeatedVersion
  | incompatibleVersion
  | repeatedHandle
  | noDocumentStart
  deriving DecidableEq, Repr

def Problem.message : Problem → String
  | strayCharacter => "found character that cannot start any token"
  | overdueColon => "could not find expected ':'"
  | misplacedEntry => "block sequence entries are not allowed in this context"
  | misplacedKey => "mapping keys are not allowed in this context"
  | misplacedValue => "mapping values are not allowed in this context"
  | noDirectiveName => "could not find expected directive name"
  | badDirectiveName => "found unexpected non-alphabetical character"
  | unknownDirective => "found unknown directive name"
  | noLineEnd => "did not find expected comment or line break"
  | longVersion => "found extremely long version number"
  | noVersion => "did not find expected version number"
  | noVersionPoint => "did not find expected digit or '.' character"
  | noGap => "did not find expected whitespace"
  | noGapOrLineEnd => "did not find expected whitespace or line break"
  | noHandleMark => "did not find expected '!'"
  | noName => "did not find expected alphabetic or numeric character"
  | unclosedTag => "did not find the expected '>'"
  | noTagSuffix => "did not find expected tag URI"
  | noOctet => "did not find URI escaped octet"
  | badLeadingOctet => "found an incorrect leading UTF-8 octet"
  | badTrailingOctet => "found an incorrect trailing UTF-8 octet"
  | zeroIndentation => "found an indentation indicator equal to 0"
  | indentingTab => "found a tab character where an indentation space is expected"
  | markerInQuotes => "found unexpected document indicator"
  | unclosedQuotes => "found unexpected end of stream"
  | unknownEscape => "found unknown escape character"
  | noEscapeDigit => "did not find expected hexdecimal number"
  | badEscapedCharacter => "found invalid Unicode character escape code"
  | plainTab => "found a tab character that violates indentation"
  | plainColon => "found unexpected ':'"
  | undefinedHandle => "found undefined tag handle"
  | noContent => "did not find expected node content"
  | noBlockEntry => "did not find expected '-' indicator"
  | noBlockKey => "did not find expected key"
  | unseparatedItem => "did not find expected ',' or ']'"
  | unseparatedEntry => "did not find expected ',' or '\x7d'"
  | repeatedVersion => "found duplicate %YAML directive"
  | incompatibleVersion => "found incompatible YAML document"
  | repeatedHandle => "found duplicate %TAG directive"
  | noDocumentStart => "did not find expected <document start>"

/-- A problem within a token, with the text that follows its position. -/
structure Stop where
  problem : Problem
  context : Context
  rest : List Char
  deriving DecidableEq, Repr

/-- A problem and its position, and, if it is told, what was being read and where that starts. -/
structure Fault where
  problem : Problem
  position : Position
  context : Option (Context × Position)
  deriving DecidableEq, Repr

namespace Fault

/-- The problem and its position, then what was being read and its start; a start that is the
position of the problem is not told twice. -/
def message (f : Fault) : String :=
  let context := match f.context with
    | some (c, start) => ", " ++ c.message ++ if start = f.position then "" else start.locate
    | none => ""
  f.problem.message ++ f.position.locate ++ context

end Fault

end Toolchain32.Yaml
