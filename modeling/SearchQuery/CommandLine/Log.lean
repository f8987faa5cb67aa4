import SearchQuery.Compile
import SearchQuery.Text.Quoted

namespace SearchQuery

inductive Log.Level
  | error | warn | info | debug | trace
  deriving DecidableEq, Repr

structure Log.Record where
  level  : Log.Level
  target : String -- the part of the program which the record comes from
  text   : String

namespace Log

namespace Level

def rank : Level → Nat
  | error => 1
  | warn  => 2
  | info  => 3
  | debug => 4
  | trace => 5

-- All labels are equally wide.
def label : Level → String
  | error => "ERROR"
  | warn  => "WARN "
  | info  => "INFO "
  | debug => "DEBUG"
  | trace => "TRACE"

end Level

def compiler : String :=
  "plastic_parser_rs::compiler"

def junctionName : Junction → String
  | .adjacent       => "Adjacent"
  | .touching       => "Touching"
  | .connector .and => "Connector(And)"
  | .connector .or  => "Connector(Or)"

-- The record of what a parser remarks.
def ofNote : Note → Record
  | .junction j offset => {
    level  := .trace
    target := "plastic_parser_rs::grammar::expression"
    text   := "junction " ++ junctionName j ++ " at " ++ toString offset
  }
  | .typeFilter value => {
    level  := .trace
    target := "plastic_parser_rs::grammar::type_clause"
    text   := "type filter " ++ value
  }
  | .facet name filtered => {
    level  := .trace
    target := "plastic_parser_rs::grammar::facets"
    text   := "facet " ++ name ++ " (filtered: " ++ toString filtered ++ ")"
  }
  | .nestedFilter path => {
    level  := .trace
    target := "plastic_parser_rs::grammar::facets"
    text   := "nested filter on " ++ path
  }
  | .fragment f => {
    level  := .trace
    target := compiler
    text   := "fragment " ++ Text.quoted (f.render .query)
  }

def optionalText : Option String → String
  | none   => "None"
  | some s => "Some(" ++ Text.quoted s ++ ")"

def ofQuery (text : String) : Record where
  level  := .debug
  target := compiler
  text   := "compiling query: " ++ Text.quoted (String.ofList (Query.normalize text))

def ofDocument (d : Document) : Record where
  level  := .debug
  target := compiler
  text   :=
    "compiled query: " ++ toString d.must.length ++ " must clause(s), " ++
      toString (d.facets.elim 0 Fields.size) ++ " facet(s), free text " ++ optionalText d.freeText

-- The records of a compilation.
def ofCompilation (text : String) (result : Except ParseError Document × List Note) : List Record :=
  ofQuery text :: result.2.map ofNote ++ (result.1.toOption.map ofDocument).toList

end Log

end SearchQuery
