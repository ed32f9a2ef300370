/-
The words and marks of program text.

Reserved words are the rule keywords, the separation words and the names of all
options. Every other word, and anything in double quotes, is an identifier.
-/

import RelationalLayout.Decimal.Text
import RelationalLayout.Layout.Options

namespace RelationalLayout

inductive Keyword where
  | ifWord
  | thenWord
  | cycle
  | group
  | separation
  | atWord
  | least
  | exactly
deriving DecidableEq, Inhabited

namespace Keyword

def all : List Keyword :=
  [.ifWord, .thenWord, .cycle, .group, .separation, .atWord, .least, .exactly]

def name : Keyword → String
  | .ifWord => "IF"
  | .thenWord => "THEN"
  | .cycle => "Cycle"
  | .group => "Group"
  | .separation => "separation"
  | .atWord => "at"
  | .least => "least"
  | .exactly => "exactly"

end Keyword

inductive Token where
  | keyword (word : Keyword)
  | unary (option : UnaryOption)
  | binary (option : BinaryOption)
  | cyclic (option : CyclicOption)
  | openParen
  | closeParen
  | comma
  | colon
  | identifier (name : String)
  | number (value : Float)
deriving DecidableEq, Inhabited

namespace Token

def reserved : List (String × Token) :=
  Keyword.all.map (fun word => (word.name, .keyword word)) ++
    UnaryOption.all.map (fun option => (option.name, .unary option)) ++
    BinaryOption.all.map (fun option => (option.name, .binary option)) ++
    CyclicOption.all.map (fun option => (option.name, .cyclic option))

def ofWord (word : String) : Token := (reserved.lookup word).getD (.identifier word)

def description : Token → String
  | .keyword word => "keyword '" ++ word.name ++ "'"
  | .unary option => "option '" ++ option.name ++ "'"
  | .binary option => "option '" ++ option.name ++ "'"
  | .cyclic option => "option '" ++ option.name ++ "'"
  | .openParen => "'('"
  | .closeParen => "')'"
  | .comma => "','"
  | .colon => "':'"
  | .identifier name => "identifier '" ++ name ++ "'"
  | .number value => "number " ++ plainNumber value

end Token

end RelationalLayout
