import Lexing.CommandLine
import Lexing.Proofs.Arrival
import Lexing.Proofs.RoundTrip

/-!
# What the program prints can be read back

The program prints a listing and escapes nothing in it: the text of a token stands at the end of its
line as it stands in the source. That a listing can be read back all the same is owed to the tokens.
A token is a separator or a run, and neither holds a blank; so no token breaks its line, and the two
tabs that the program puts in front of it are the first on the line.

From this the rest follows. A program that succeeds prints exactly one line for each token, and the
token can be told from its line; so two runs that succeed print the same only if they found the same
tokens. A program that fails prints nothing at all, since the source is lexed to its end before the
first line is printed.
-/

namespace Lexing

/-! ## Tokens hold no blanks -/

theorem isBlank_of_mem_token {source : String} {t : Token} (h : t ∈ (lex source).tokens) {c : Char}
    (hc : c ∈ t.text.toList) : Text.isBlank c = false := by
  rcases isSeparator_or_isRun_of_mem_tokens h with ⟨d, hd, htext⟩ | hrun
  · rw [htext, List.mem_singleton] at hc
    refine Text.not_isBlank_of_role ?_
    rw [hc, Piece.role_of_mem_separators hd]
    exact Role.noConfusion
  · exact hrun.not_isBlank hc

/-- Tokens that were delivered are the tokens of some source. -/
theorem exists_source_of_lexDeliveries {deliveries : List Delivery} {tokens : List Token}
    (h : lexDeliveries deliveries = .ok tokens) : ∃ source, tokens = (lex source).tokens := by
  have hcontent : Delivery.firstFailure? deliveries = none := by
    cases hfailure : Delivery.firstFailure? deliveries with
    | none => rfl
    | some reason =>
        rw [lexDeliveries_of_failure hfailure] at h
        cases h
  rw [lexDeliveries_of_content hcontent] at h
  cases hdecode : Utf8.decode (Delivery.content deliveries) with
  | error fault =>
      rw [lexBytes_of_fault hdecode] at h
      cases h
  | ok source =>
      rw [lexBytes_of_decode hdecode] at h
      exact ⟨source, (lexStrict_eq_ok_iff.mp h).1⟩

theorem newline_not_mem_of_lexDeliveries {deliveries : List Delivery} {tokens : List Token}
    (h : lexDeliveries deliveries = .ok tokens) : ∀ t ∈ tokens, '\n' ∉ t.text.toList := by
  obtain ⟨source, rfl⟩ := exists_source_of_lexDeliveries h
  intro t ht hc
  exact Text.ne_newline_of_not_isBlank (isBlank_of_mem_token ht hc) rfl

/-! ## Lines show tokens -/

/-- Whether the line shows the token: what stands before its first two tabs can be read as the span
and as the name of the kind, and what stands behind them is the text. -/
def Token.ShownOn (t : Token) (line : List Char) : Prop :=
  ∃ place name, line = place ++ '\t' :: (name ++ '\t' :: t.text.toList) ∧
    '\t' ∉ place ∧ '\t' ∉ name ∧
    Span.parse? place = some t.span ∧ Kind.ofName? (String.ofList name) = some t.kind

theorem Token.shownOn_render (t : Token) : t.ShownOn t.render.toList := by
  refine ⟨t.span.render.toList, t.kind.name.toList, ?_, ?_, ?_, Span.parse?_render t.span, ?_⟩
  · simp [Token.render]
  · intro hc
    rcases Span.eq_of_mem_render hc with hc | hc | hc
    · exact absurd hc (by decide)
    · exact absurd hc (by decide)
    · exact absurd hc (by decide)
  · cases t.kind <;> decide
  · rw [String.ofList_toList]
    exact Kind.ofName?_name t.kind

theorem splitOn_listing {tokens : List Token} (h : ∀ t ∈ tokens, '\n' ∉ t.text.toList) :
    ∃ lines, (listing tokens).toList.splitOn '\n' = lines ++ [[]] ∧
      List.Forall₂ Token.ShownOn tokens lines := by
  refine ⟨tokens.map fun t => t.render.toList, ?_, ?_⟩
  · rw [← Text.lines_eq_splitOn, lines_listing h]
  · rw [List.forall₂_map_right_iff, List.forall₂_same]
    intro t _
    exact t.shownOn_render

/-! ## Runs of the program -/

theorem respond_of_ok {deliveries : List Delivery} {tokens : List Token}
    (h : lexDeliveries deliveries = .ok tokens) : respond deliveries = ⟨0, listing tokens, ""⟩ := by
  rw [respond, h]

theorem respond_of_error {deliveries : List Delivery} {fault : Fault}
    (h : lexDeliveries deliveries = .error fault) :
    respond deliveries = ⟨1, "", fault.report.render ++ "\n"⟩ := by
  rw [respond, h]

/-- **What the program prints can be read back.** If it succeeds it prints one line for each token,
from which the token can be told, and nothing else; if it fails it prints nothing. So it prints the
same for two inputs that succeed only if they have the same tokens. -/
theorem output_read_back :
    (∀ deliveries tokens, lexDeliveries deliveries = .ok tokens →
      ∃ output lines, respond deliveries = ⟨0, output, ""⟩ ∧ ofListing? output = some tokens ∧
        output.toList.splitOn '\n' = lines ++ [[]] ∧ List.Forall₂ Token.ShownOn tokens lines) ∧
      (∀ deliveries fault, lexDeliveries deliveries = .error fault →
        ∃ errors, respond deliveries = ⟨1, "", errors⟩) ∧
      ∀ ds es ts us, lexDeliveries ds = .ok ts → lexDeliveries es = .ok us →
        ((respond ds).output = (respond es).output ↔ ts = us) := by
  refine ⟨?_, ?_, ?_⟩
  · intro deliveries tokens h
    have hnewline := newline_not_mem_of_lexDeliveries h
    obtain ⟨lines, hsplit, hshown⟩ := splitOn_listing hnewline
    exact ⟨listing tokens, lines, respond_of_ok h, ofListing?_listing hnewline, hsplit, hshown⟩
  · intro deliveries fault h
    exact ⟨_, respond_of_error h⟩
  · intro ds es ts us hds hes
    rw [respond_of_ok hds, respond_of_ok hes]
    constructor
    · intro hsame
      have hread := congrArg ofListing? hsame
      rw [ofListing?_listing (newline_not_mem_of_lexDeliveries hds),
        ofListing?_listing (newline_not_mem_of_lexDeliveries hes), Option.some_inj] at hread
      exact hread
    · intro hsame
      rw [hsame]

/-- One run that succeeds, and one whose reader fails. -/
theorem output_read_back_call :
    lexDeliveries [.portion (Utf8.encode "a\t;#x\n1.5")] =
        .ok [⟨.identifier, "a", ⟨1, 1, 1⟩⟩, ⟨.separator, ";", ⟨1, 3, 3⟩⟩,
          ⟨.literal, "1.5", ⟨2, 1, 3⟩⟩] ∧
      (∃ output, respond [.portion (Utf8.encode "a\t;#x\n1.5")] = ⟨0, output, ""⟩ ∧
        ofListing? output = some [⟨.identifier, "a", ⟨1, 1, 1⟩⟩, ⟨.separator, ";", ⟨1, 3, 3⟩⟩,
          ⟨.literal, "1.5", ⟨2, 1, 3⟩⟩]) ∧
      lexDeliveries [.portion (Utf8.encode "a"), .failure "disk"] = .error (.unreadable "disk") ∧
      ∃ errors, respond [.portion (Utf8.encode "a"), .failure "disk"] = ⟨1, "", errors⟩ := by
  have hread : lexDeliveries [.portion (Utf8.encode "a\t;#x\n1.5")] =
      .ok [⟨.identifier, "a", ⟨1, 1, 1⟩⟩, ⟨.separator, ";", ⟨1, 3, 3⟩⟩,
        ⟨.literal, "1.5", ⟨2, 1, 3⟩⟩] := by
    rw [lexDeliveries_of_content rfl]
    change lexBytes (Utf8.encode "a\t;#x\n1.5" ++ []) = _
    rw [List.append_nil, lexBytes_encode]
    decide +kernel
  have hfailed : lexDeliveries [.portion (Utf8.encode "a"), .failure "disk"] =
      .error (.unreadable "disk") := lexDeliveries_of_failure rfl
  obtain ⟨hsucceeds, hfails, _⟩ := output_read_back
  obtain ⟨output, _, hrespond, hback, _, _⟩ := hsucceeds _ _ hread
  exact ⟨hread, ⟨output, hrespond, hback⟩, hfailed, hfails _ _ hfailed⟩

end Lexing
