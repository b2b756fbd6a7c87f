import Lexing.Span

/-!
# Tokens

A token is a piece of source text together with its kind and the place where it stands. The text is
kept exactly as it was written: numbers are not normalized and quoted strings keep their quotes.
-/

namespace Lexing

/-- What sort of text a token is. -/
inductive Kind where
  | identifier
  | keyword
  | operator
  /-- A mark that stands alone. -/
  | separator
  /-- A number or a quoted string. -/
  | literal
  /-- A comment. Lexing drops comments, so it never gives a token of this kind; the kind is there
  for readers that keep them. -/
  | comment
deriving DecidableEq, Repr

namespace Kind

/-- The name of a kind in listings and messages. -/
def name : Kind → String
  | .identifier => "Identifier"
  | .keyword => "Keyword"
  | .operator => "Operator"
  | .separator => "Separator"
  | .literal => "Literal"
  | .comment => "Comment"

/-- The kind with the given name. -/
def ofName? : String → Option Kind
  | "Identifier" => some .identifier
  | "Keyword" => some .keyword
  | "Operator" => some .operator
  | "Separator" => some .separator
  | "Literal" => some .literal
  | "Comment" => some .comment
  | _ => none

theorem ofName?_name (kind : Kind) : ofName? kind.name = some kind := by
  cases kind <;> rfl

end Kind

/-- A piece of source text with its kind and its place. -/
structure Token where
  kind : Kind
  text : String
  span : Span
deriving DecidableEq, Repr

/-- A run of source text that no rule recognizes. -/
structure Stray where
  text : String
  span : Span
deriving DecidableEq, Repr

/-- The written form of a token: its span, its kind and its text, with tabs between them. -/
def Token.render (t : Token) : String :=
  t.span.render ++ "\t" ++ t.kind.name ++ "\t" ++ t.text

example : (Token.mk .keyword "return" ⟨2, 2, 7⟩).render = "2:2-7\tKeyword\treturn" := by decide

end Lexing
