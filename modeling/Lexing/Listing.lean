import Lexing.Text.Lines
import Lexing.Token

/-!
# Listings

A listing shows one token a line. The text of a token is shown as it is, and can be told from the
rest of its line because no token of a source holds a blank. So a listing can be read back, line by
line, each line being cut at its first two tabs.
-/

namespace Lexing

/-- The listing of the given tokens. -/
def listing (tokens : List Token) : String :=
  String.join (tokens.map fun t => t.render ++ "\n")

/-- Reads the written form of a token that makes up the whole line. -/
def Token.parse? (line : List Char) : Option Token := do
  let (span, rest) ← Text.readUntil? '\t' line
  let (name, text) ← Text.readUntil? '\t' rest
  return ⟨← Kind.ofName? (String.ofList name), String.ofList text, ← Span.parse? span⟩

/-- A token is read back from its written form, whatever its text. -/
theorem Token.parse?_render (t : Token) : Token.parse? t.render.toList = some t := by
  have hspan : '\t' ∉ t.span.render.toList := by
    intro h
    rcases Span.eq_of_mem_render h with h | h | h <;> exact absurd h (by decide)
  have hname : '\t' ∉ t.kind.name.toList := by cases t.kind <;> decide
  have houter := Text.readUntil?_append hspan (t.kind.name.toList ++ '\t' :: t.text.toList)
  have hinner := Text.readUntil?_append hname t.text.toList
  simp [Token.parse?, Token.render, houter, hinner, Kind.ofName?_name, Span.parse?_render]

/-- The tokens that a listing shows. Every line ends with a newline, so the last one is empty. -/
def ofListing? (text : String) : Option (List Token) :=
  let lines := Text.lines text.toList
  if lines.getLast? = some [] then lines.dropLast.mapM Token.parse? else none

/-- The written form of a token stays on one line if its text does. -/
theorem Token.newline_not_mem_render {t : Token} (h : '\n' ∉ t.text.toList) :
    '\n' ∉ t.render.toList := by
  simp only [Token.render, String.toList_append, List.mem_append, not_or]
  refine ⟨⟨⟨⟨fun hc => ?_, by decide⟩, by cases t.kind <;> decide⟩, by decide⟩, h⟩
  rcases Span.eq_of_mem_render hc with hc | hc | hc <;> exact absurd hc (by decide)

/-- A listing has a line for each token, and an empty one at the end. -/
theorem lines_listing {tokens : List Token} (h : ∀ t ∈ tokens, '\n' ∉ t.text.toList) :
    Text.lines (listing tokens).toList = tokens.map (fun t => t.render.toList) ++ [[]] := by
  induction tokens with
  | nil => rfl
  | cons t tokens ih =>
    have hcons : (listing (t :: tokens)).toList =
        t.render.toList ++ '\n' :: (listing tokens).toList := by
      simp [listing, String.toList_join]
    rw [hcons, Text.lines_append_newline (Token.newline_not_mem_render (h t List.mem_cons_self)),
      ih fun u hu => h u (List.mem_cons_of_mem t hu)]
    rfl

theorem mapM_parse?_render (tokens : List Token) :
    (tokens.map fun t => t.render.toList).mapM Token.parse? = some tokens := by
  induction tokens with
  | nil => rfl
  | cons t tokens ih => simp [Token.parse?_render, ih]

/-- Listings can be read back, if no token holds a newline. -/
theorem ofListing?_listing {tokens : List Token} (h : ∀ t ∈ tokens, '\n' ∉ t.text.toList) :
    ofListing? (listing tokens) = some tokens := by
  simp only [ofListing?, lines_listing h, List.getLast?_concat, if_true, List.dropLast_concat]
  exact mapM_parse?_render tokens

example : ofListing? "2:2-7\tKeyword\treturn\n" = some [⟨.keyword, "return", ⟨2, 2, 7⟩⟩] := by decide

end Lexing
