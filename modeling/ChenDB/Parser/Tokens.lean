import ChenDB.Parser.Ast

/-
  Tokens: a slice of the text, what it is, and where it
  stands.
-/

--
-- Kinds of Tokens
--

namespace ChenDB

namespace Parser

open Executor (Value)

inductive TokenType where
  | identifier
  | keyword
  | intLiteral
  | floatLiteral
  | stringLiteral
  | star
  | comma
  | semicolon
  | lparen
  | rparen
  | dot
  | eq
  | neq
  | lt
  | lte
  | gt
  | gte
  | plus
  | minus
  | slash
  | percent
  | eof
deriving DecidableEq, Repr

/- The reserved words, those of later milestones included. -/
inductive Keyword where
  | select
  | insert
  | update
  | delete
  | create
  | drop
  | explain
  | analyze
  | keyFrom
  | keyWhere
  | into
  | values
  | keySet
  | table
  | index
  | keyOn
  | keyAs
  | order
  | group
  | having
  | keyBy
  | join
  | inner
  | outer
  | left
  | right
  | full
  | cross
  | keyUsing
  | limit
  | offset
  | asc
  | desc
  | distinct
  | and
  | or
  | not
  | is
  | keyIn
  | like
  | between
  | null
  | true
  | false
  | primary
  | key
  | unique
  | keyDefault
  | keyIf
  | exists
  | integer
  | int
  | bigint
  | float
  | real
  | double
  | boolean
  | bool
  | text
  | varchar
  | keyBegin
  | commit
  | rollback
  | transaction
deriving DecidableEq, Repr

def Keyword.value : Keyword → String
  | .select => "SELECT"
  | .insert => "INSERT"
  | .update => "UPDATE"
  | .delete => "DELETE"
  | .create => "CREATE"
  | .drop => "DROP"
  | .explain => "EXPLAIN"
  | .analyze => "ANALYZE"
  | .keyFrom => "FROM"
  | .keyWhere => "WHERE"
  | .into => "INTO"
  | .values => "VALUES"
  | .keySet => "SET"
  | .table => "TABLE"
  | .index => "INDEX"
  | .keyOn => "ON"
  | .keyAs => "AS"
  | .order => "ORDER"
  | .group => "GROUP"
  | .having => "HAVING"
  | .keyBy => "BY"
  | .join => "JOIN"
  | .inner => "INNER"
  | .outer => "OUTER"
  | .left => "LEFT"
  | .right => "RIGHT"
  | .full => "FULL"
  | .cross => "CROSS"
  | .keyUsing => "USING"
  | .limit => "LIMIT"
  | .offset => "OFFSET"
  | .asc => "ASC"
  | .desc => "DESC"
  | .distinct => "DISTINCT"
  | .and => "AND"
  | .or => "OR"
  | .not => "NOT"
  | .is => "IS"
  | .keyIn => "IN"
  | .like => "LIKE"
  | .between => "BETWEEN"
  | .null => "NULL"
  | .true => "TRUE"
  | .false => "FALSE"
  | .primary => "PRIMARY"
  | .key => "KEY"
  | .unique => "UNIQUE"
  | .keyDefault => "DEFAULT"
  | .keyIf => "IF"
  | .exists => "EXISTS"
  | .integer => "INTEGER"
  | .int => "INT"
  | .bigint => "BIGINT"
  | .float => "FLOAT"
  | .real => "REAL"
  | .double => "DOUBLE"
  | .boolean => "BOOLEAN"
  | .bool => "BOOL"
  | .text => "TEXT"
  | .varchar => "VARCHAR"
  | .keyBegin => "BEGIN"
  | .commit => "COMMIT"
  | .rollback => "ROLLBACK"
  | .transaction => "TRANSACTION"

/- The keywords in the order of their declaration. -/
def Keyword.all : List Keyword :=
  [.select, .insert, .update, .delete, .create, .drop,
   .explain, .analyze, .keyFrom, .keyWhere, .into, .values,
   .keySet, .table, .index, .keyOn, .keyAs, .order, .group,
   .having, .keyBy, .join, .inner, .outer, .left, .right,
   .full, .cross, .keyUsing, .limit, .offset, .asc, .desc,
   .distinct, .and, .or, .not, .is, .keyIn, .like, .between,
   .null, .true, .false, .primary, .key, .unique, .keyDefault,
   .keyIf, .exists, .integer, .int, .bigint, .float, .real,
   .double, .boolean, .bool, .text, .varchar, .keyBegin,
   .commit, .rollback, .transaction]

/- `KEYWORDS`, by the word in upper case. -/
def keywords (word : List Char) : Option Keyword :=
  Keyword.all.find? fun keyword =>
    keyword.value.toList = word

--
-- Tokens
--

/- The lexeme is the text as it stands, and the value what it
   says where it is a literal or quoted. -/
structure Token (φ : Type) where
  type : TokenType
  lexeme : List Char
  span : SourceSpan
  keyword : Option Keyword
  value : Option (Value φ)
deriving DecidableEq, Repr

end Parser

end ChenDB
