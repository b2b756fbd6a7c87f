import Lexing.Event
import Lexing.Proofs.Coverage
import Lexing.Proofs.Runs
import Mathlib.Data.List.Sort

/-!
# What the log accounts for

Lexing gives two lists and forgets the runs that a comment touches. The log forgets nothing: it goes
over the source once more and tells of every token, every stray and every dropped run in the order
in which they stand. A token that is no separator is told of twice, first by the rule that
recognized it. The end is a summary, and there is nothing else in the log.

What has to be accounted for is said without the log. An inventory of a source is a list, in the
order of spans, of the tokens and strays that lexing gives and of the whole runs that are followed
by a comment mark at once. A source has exactly one inventory, and the log follows it item by item.
The log is taken as it is written, so the names of levels and the messages are part of what it has
to say of an item (`Item.Told`).

So nothing in the source is lost to the log. Each character of the code stands in exactly one item,
and the texts that the log shows, put one after the other, are the code of the source.
-/

namespace Lexing

/-! ## Inventories -/

/-- Something in a source that has to be accounted for. -/
inductive Item where
  | token (token : Token)
  | stray (stray : Stray)
  /-- A run that a comment touches. -/
  | dropped (text : String) (span : Span)
deriving DecidableEq, Repr

namespace Item

/-- Where an item stands. -/
def span : Item → Span
  | .token t => t.span
  | .stray s => s.span
  | .dropped _ span => span

/-- The text of an item. -/
def text : Item → String
  | .token t => t.text
  | .stray s => s.text
  | .dropped text _ => text

/-- What is logged of an item: the name of a level and a message, for each event. The rule that is
named for a token has to be one that gives its kind to its text; separators are not asked about. -/
inductive Told : Item → List (String × String) → Prop where
  | separator {t : Token} : t.kind = .separator →
      Told (.token t)
        [("TRACE", "Separator " ++ Text.quote t.text ++ " at " ++ t.span.render)]
  | recognized {t : Token} {rule : Rule} {name : String} : t.kind ≠ .separator →
      Rule.ofName? name = some rule → rule.kind? t.text = some t.kind →
      Told (.token t)
        [("TRACE", name ++ " classifier took " ++ Text.quote t.text ++ " as " ++ t.kind.name),
          ("TRACE", t.kind.name ++ " " ++ Text.quote t.text ++ " at " ++ t.span.render)]
  | stray {s : Stray} :
      Told (.stray s)
        [("DEBUG", "unrecognized text " ++ Text.quote s.text ++ " at " ++ s.span.render)]
  | dropped {text : String} {span : Span} :
      Told (.dropped text span)
        [("DEBUG", "comment at line " ++ span.line.repr ++ " discards partial token " ++
          Text.quote text)]

end Item

/-- The items of a source in the order in which they stand: its tokens, its strays, and the whole
runs that a comment mark follows at once. -/
structure Inventory (source : String) (items : List Item) : Prop where
  ordered : items.Pairwise fun a b => a.span < b.span
  token_mem_iff : ∀ t, .token t ∈ items ↔ t ∈ (lex source).tokens
  stray_mem_iff : ∀ s, .stray s ∈ items ↔ s ∈ (lex source).strays
  dropped_mem_iff : ∀ text span, .dropped text span ∈ items ↔
    ∃ before after, WholeRun source.toList before text.toList (commentMark :: after) ∧
      span = Span.behind before text.toList

instance : Std.Antisymm fun a b : Item => a.span < b.span where
  antisymm a b hab hba := by
    rw [Span.lt_iff] at hab hba
    omega

instance : Std.Irrefl fun a b : Item => a.span < b.span where
  irrefl a h := by
    rw [Span.lt_iff] at h
    omega

/-- A source has no more than one inventory. -/
theorem Inventory.unique {source : String} {items others : List Item}
    (h : Inventory source items) (h' : Inventory source others) : items = others := by
  refine h.ordered.eq_of_mem_iff h'.ordered ?_
  intro item
  cases item with
  | token t => rw [h.token_mem_iff, h'.token_mem_iff]
  | stray s => rw [h.stray_mem_iff, h'.stray_mem_iff]
  | dropped text span => rw [h.dropped_mem_iff, h'.dropped_mem_iff]

/-! ## Each piece is an item -/

namespace Item

/-- What a piece amounts to. -/
def ofPiece (p : Piece) : Item :=
  match p.form with
  | .separator => .token ⟨.separator, p.text, p.span⟩
  | .run =>
    match Rule.recognize p.text with
    | some (_, kind) => .token ⟨kind, p.text, p.span⟩
    | none => .stray ⟨p.text, p.span⟩
  | .dropped => .dropped p.text p.span

/-- A piece is a token, a stray or a dropped run, and its item says which. -/
theorem ofPiece_cases (p : Piece) :
    (∃ t, p.token? = some t ∧ p.stray? = none ∧ p.form ≠ .dropped ∧ ofPiece p = .token t) ∨
      (∃ s, p.token? = none ∧ p.stray? = some s ∧ p.form ≠ .dropped ∧ ofPiece p = .stray s) ∨
        p.token? = none ∧ p.stray? = none ∧ p.form = .dropped ∧
          ofPiece p = .dropped p.text p.span := by
  unfold Piece.token? Piece.stray? ofPiece
  cases p.form with
  | separator => exact Or.inl ⟨_, rfl, rfl, by decide, rfl⟩
  | run =>
      cases Rule.recognize p.text with
      | some found => exact Or.inl ⟨_, rfl, rfl, by decide, rfl⟩
      | none => exact Or.inr (Or.inl ⟨_, rfl, rfl, by decide, rfl⟩)
  | dropped => exact Or.inr (Or.inr ⟨rfl, rfl, rfl, rfl⟩)

theorem ofPiece_eq_token_iff {p : Piece} {t : Token} :
    ofPiece p = .token t ↔ p.token? = some t := by
  rcases ofPiece_cases p with ⟨u, ht, _, _, h⟩ | ⟨s, ht, _, _, h⟩ | ⟨ht, _, _, h⟩
  · rw [h, ht, Item.token.injEq, Option.some_inj]
  · rw [h, ht]
    simp
  · rw [h, ht]
    simp

theorem ofPiece_eq_stray_iff {p : Piece} {s : Stray} :
    ofPiece p = .stray s ↔ p.stray? = some s := by
  rcases ofPiece_cases p with ⟨t, _, hs, _, h⟩ | ⟨u, _, hs, _, h⟩ | ⟨_, hs, _, h⟩
  · rw [h, hs]
    simp
  · rw [h, hs, Item.stray.injEq, Option.some_inj]
  · rw [h, hs]
    simp

theorem ofPiece_eq_dropped_iff {p : Piece} {text : String} {span : Span} :
    ofPiece p = .dropped text span ↔ p.form = .dropped ∧ p.text = text ∧ p.span = span := by
  rcases ofPiece_cases p with ⟨t, _, _, hform, h⟩ | ⟨s, _, _, hform, h⟩ | ⟨_, _, hform, h⟩
  · rw [h]
    simp [hform]
  · rw [h]
    simp [hform]
  · rw [h, Item.dropped.injEq]
    simp [hform]

theorem span_ofPiece (p : Piece) : (ofPiece p).span = p.span := by
  unfold ofPiece
  split
  · rfl
  · split
    · rfl
    · rfl
  · rfl

theorem text_ofPiece (p : Piece) : (ofPiece p).text = p.text := by
  unfold ofPiece
  split
  · rfl
  · split
    · rfl
    · rfl
  · rfl

end Item

theorem Item.told_ofPiece (p : Piece) :
    Told (ofPiece p) ((Event.ofPiece p).map Event.entry) := by
  unfold ofPiece Event.ofPiece
  cases p.form with
  | separator => exact Told.separator rfl
  | run =>
      cases hfound : Rule.recognize p.text with
      | some found =>
          obtain ⟨rule, kind⟩ := found
          exact Told.recognized (Rule.ne_separator_of_recognize hfound) (Rule.ofName?_name rule)
            (Rule.kind?_of_recognize hfound)
      | none => exact Told.stray
  | dropped => exact Told.dropped

/-! ## Dropped pieces are touched runs -/

namespace Piece

theorem formBefore_eq_dropped_iff {after : List Char} :
    formBefore after = .dropped ↔ ∃ rest, after = commentMark :: rest := by
  constructor
  · intro h
    cases after with
    | nil => cases h
    | cons c rest =>
        rw [formBefore, List.head?_cons, Form.ofNext?] at h
        cases hc : Role.of c with
        | blank =>
            rw [hc] at h
            cases h
        | separator =>
            rw [hc] at h
            cases h
        | mark => exact ⟨rest, by rw [eq_commentMark_of_role hc]⟩
        | plain =>
            rw [hc] at h
            cases h
  · intro h
    obtain ⟨rest, rfl⟩ := h
    rw [formBefore, List.head?_cons, Form.ofNext?, role_commentMark]
    rfl

/-- The dropped pieces of a source are its whole runs in front of a comment mark. -/
theorem dropped_mem_ofSource_iff {source text : String} {span : Span} :
    (⟨.dropped, text, span⟩ : Piece) ∈ ofSource source ↔
      ∃ before after, WholeRun source.toList before text.toList (commentMark :: after) ∧
        span = Span.behind before text.toList := by
  constructor
  · intro h
    obtain ⟨before, run, after, hrun, hp⟩ := exists_wholeRun h Form.noConfusion
    rw [ofRun, Piece.mk.injEq] at hp
    obtain ⟨hform, htext, hspan⟩ := hp
    obtain ⟨rest, hafter⟩ := formBefore_eq_dropped_iff.mp hform.symm
    subst hafter
    refine ⟨before, rest, ?_, ?_⟩
    · rw [htext, String.toList_ofList]
      exact hrun
    · rw [htext, String.toList_ofList]
      exact hspan
  · intro h
    obtain ⟨before, after, hrun, rfl⟩ := h
    obtain ⟨more, hpieces⟩ := ofSource_wholeRun hrun
    have hform := formBefore_eq_dropped_iff.mpr ⟨after, rfl⟩
    rw [String.ofList_toList, ofRun, hform, String.ofList_toList] at hpieces
    rw [hpieces]
    exact List.mem_append_right _ List.mem_cons_self

end Piece

/-- The items of a source, as its pieces give them. -/
def items (source : String) : List Item := (Piece.ofSource source).map Item.ofPiece

theorem mem_items {source : String} {item : Item} :
    item ∈ items source ↔ ∃ p ∈ Piece.ofSource source, Item.ofPiece p = item := List.mem_map

/-- They are an inventory. -/
theorem inventory_items (source : String) : Inventory source (items source) where
  ordered := by
    refine List.pairwise_map.mpr ((Piece.pairwise_ofSource source).imp_of_mem ?_)
    intro p q hp _ hpq
    rw [Item.span_ofPiece, Item.span_ofPiece]
    exact hpq.lt (Piece.shows_of_mem_ofSource hp).first_le
  token_mem_iff := by
    intro t
    rw [mem_items, mem_tokens]
    simp only [Item.ofPiece_eq_token_iff]
  stray_mem_iff := by
    intro s
    rw [mem_items, mem_strays]
    simp only [Item.ofPiece_eq_stray_iff]
  dropped_mem_iff := by
    intro text span
    rw [mem_items, ← Piece.dropped_mem_ofSource_iff]
    simp only [Item.ofPiece_eq_dropped_iff]
    constructor
    · intro h
      obtain ⟨p, hp, hform, rfl, rfl⟩ := h
      rw [← hform]
      exact hp
    · intro h
      exact ⟨_, h, rfl, rfl, rfl⟩

/-! ## No character is lost -/

/-- The characters of a source that are neither blank nor in a comment. -/
def Text.codeChars (source : List Char) : List Char :=
  (lines source).flatMap fun line => (Piece.code line).filter fun c => !isBlank c

/-- The characters that an event accounts for: the text of a token, of a stray or of a dropped run.
The rule that recognized a run only repeats the text of the token. -/
def Event.chars : Event → List Char
  | .recognized .. | .finished .. => []
  | .token t => t.text.toList
  | .stray s => s.text.toList
  | .dropped _ text => text.toList

theorem Event.flatMap_chars_ofPiece (p : Piece) :
    (ofPiece p).flatMap chars = p.text.toList := by
  unfold ofPiece
  split
  · simp [chars]
  · split
    · simp [chars]
    · simp [chars]
  · simp [chars]

namespace Piece

/-- The texts of the pieces of some code are what is not blank in it. -/
theorem flatMap_text_ofCode {code : List Char} (h : commentMark ∉ code) (number : Nat) (last : Form)
    (column : Nat) :
    (ofCode number last column code).flatMap (fun p => p.text.toList) =
      code.filter fun c => !Text.isBlank c := by
  induction code using walk generalizing column with
  | nil => rw [ofCode_nil, List.flatMap_nil, List.filter_nil]
  | gap c rest hc ih =>
      rw [List.mem_cons, not_or] at h
      rcases hc with hc | hc
      · rw [ofCode_gap (Or.inl hc), ih h.2, List.filter_cons_of_neg]
        rw [Text.isBlank_of_role hc]
        decide
      · exact absurd (eq_commentMark_of_role hc) (fun e => h.1 e.symm)
  | separator c rest hc ih =>
      rw [List.mem_cons, not_or] at h
      have hblank := Text.not_isBlank_of_role (c := c) (by rw [hc]; decide)
      rw [ofCode_separator hc, List.flatMap_cons, ih h.2, String.toList_singleton,
        List.filter_cons_of_pos (by rw [hblank]; rfl)]
      rfl
  | run run after hrun hafter ih =>
      rw [List.mem_append, not_or] at h
      have hkept : (run.filter fun c => !Text.isBlank c) = run := by
        refine List.filter_eq_self.mpr ?_
        intro c hc
        rw [hrun.not_isBlank hc]
        rfl
      rw [ofCode_run hrun hafter, List.flatMap_cons, ih h.2, String.toList_ofList,
        List.filter_append, hkept]

theorem flatMap_text_ofLines (number : Nat) (lines : List (List Char)) :
    (ofLines number lines).flatMap (fun p => p.text.toList) =
      lines.flatMap fun line => (code line).filter fun c => !Text.isBlank c := by
  induction lines generalizing number with
  | nil => rfl
  | cons line lines ih =>
      rw [ofLines_cons, List.flatMap_append, ih, List.flatMap_cons, ofLine,
        flatMap_text_ofCode (commentMark_not_mem_code line)]

end Piece

theorem flatMap_chars_log (source : String) :
    (log source).flatMap Event.chars = Text.codeChars source.toList := by
  have hpieces : ∀ pieces : List Piece,
      (pieces.flatMap Event.ofPiece).flatMap Event.chars =
        pieces.flatMap fun p => p.text.toList := by
    intro pieces
    rw [List.flatMap_assoc]
    simp only [Event.flatMap_chars_ofPiece]
  show ((Piece.ofSource source).flatMap Event.ofPiece ++ [_]).flatMap Event.chars = _
  rw [List.flatMap_append, hpieces, Piece.ofSource_eq_byLine, Piece.byLine,
    Piece.flatMap_text_ofLines]
  exact List.append_nil _

/-- A character of the code stands in one item, and in no other. -/
theorem existsUnique_item {source : String} {before after : List Char} {c : Char}
    (hsource : source.toList = before ++ c :: after) (hc : Text.IsCode before c) :
    ∃! item, item ∈ items source ∧
      item.span.Holds (before.count '\n' + 1) ((Text.lastLine before).length + 1) := by
  obtain ⟨p, hp, hholds⟩ := Piece.exists_holds_of_isCode hsource hc
  refine ⟨Item.ofPiece p, ⟨mem_items.mpr ⟨p, hp, rfl⟩, by rwa [Item.span_ofPiece]⟩, ?_⟩
  intro item h
  obtain ⟨hitem, hother⟩ := h
  obtain ⟨q, hq, rfl⟩ := mem_items.mp hitem
  rw [Item.span_ofPiece] at hother
  by_cases hne : q = p
  · rw [hne]
  · exfalso
    rcases Piece.precedes_or_precedes hq hp hne with h | h
    · exact h.disjoint _ _ hother hholds
    · exact h.disjoint _ _ hholds hother

/-! ## The whole log -/

/-- The log is read back from what is logged. -/
theorem mapM_read?_logged (source : String) :
    (logged source).mapM Event.read? = some (log source) := by
  unfold logged
  induction log source with
  | nil => rfl
  | cons e events ih =>
      rw [List.map_cons, List.mapM_cons, Event.read?_entry, ih]
      rfl

/-- What is logged is what the items call for, and the summary. -/
theorem logged_eq (source : String) :
    logged source =
      ((Piece.ofSource source).map fun p => (Event.ofPiece p).map Event.entry).flatten ++
        [("DEBUG", "scanned " ++ (1 + source.toList.count '\n').repr ++ " lines: " ++
          (lex source).tokens.length.repr ++ " tokens, " ++ (lex source).strays.length.repr ++
            " unrecognized")] := by
  show ((Piece.ofSource source).flatMap Event.ofPiece ++ [_]).map Event.entry = _
  rw [List.map_append, List.map_flatMap, ← List.flatMap_def, List.map_singleton,
    Cursor.line_start_advanceAll, Nat.add_comm]
  rfl

/-- **The log accounts for the whole source.** It tells of the one inventory that the source has,
item by item, and ends with the summary, and the log can be read back from what is logged. Each
character of the code stands in exactly one item and is shown by the log exactly once. -/
theorem log_accounts (source : String) :
    ∃ inventory groups,
      (∀ others, Inventory source others ↔ others = inventory) ∧
      List.Forall₂ Item.Told inventory groups ∧
      logged source = groups.flatten ++
        [("DEBUG", "scanned " ++ (1 + source.toList.count '\n').repr ++ " lines: " ++
          (lex source).tokens.length.repr ++ " tokens, " ++ (lex source).strays.length.repr ++
            " unrecognized")] ∧
      (logged source).mapM Event.read? = some (log source) ∧
      (∀ item ∈ inventory, item.span.Shows source.toList item.text.toList) ∧
      (∀ before c after, source.toList = before ++ c :: after → Text.IsCode before c →
        ∃! item, item ∈ inventory ∧
          item.span.Holds (before.count '\n' + 1) ((Text.lastLine before).length + 1)) ∧
      (log source).flatMap Event.chars = Text.codeChars source.toList := by
  refine ⟨items source, (Piece.ofSource source).map fun p => (Event.ofPiece p).map Event.entry,
    ?_, ?_, logged_eq source, mapM_read?_logged source, ?_,
    fun before c after => existsUnique_item, flatMap_chars_log source⟩
  · intro others
    constructor
    · intro h
      exact h.unique (inventory_items source)
    · intro h
      rw [h]
      exact inventory_items source
  · rw [items, List.forall₂_map_left_iff, List.forall₂_map_right_iff, List.forall₂_same]
    intro p _
    exact Item.told_ofPiece p
  · intro item hitem
    obtain ⟨p, hp, rfl⟩ := mem_items.mp hitem
    rw [Item.span_ofPiece, Item.text_ofPiece]
    exact Piece.shows_of_mem_ofSource hp

/-- A log with a stray and a dropped run. The dropped character is accounted for, too. -/
theorem log_accounts_call :
    logged "f(1b x#;\n)" =
        [("TRACE", "word classifier took \"f\" as Identifier"),
          ("TRACE", "Identifier \"f\" at 1:1-1"), ("TRACE", "Separator \"(\" at 1:2-2"),
          ("DEBUG", "unrecognized text \"1b\" at 1:3-4"),
          ("DEBUG", "comment at line 1 discards partial token \"x\""),
          ("TRACE", "Separator \")\" at 2:1-1"),
          ("DEBUG", "scanned 2 lines: 3 tokens, 1 unrecognized")] ∧
      ∃ inventory, Inventory "f(1b x#;\n)" inventory ∧ Text.IsCode "f(1b ".toList 'x' ∧
        ∃! item, item ∈ inventory ∧ item.span.Holds 1 6 := by
  have hcode : Text.IsCode "f(1b ".toList 'x' := ⟨by decide, by decide, by decide⟩
  obtain ⟨inventory, _, hinventory, _, _, _, _, hheld, _⟩ := log_accounts "f(1b x#;\n)"
  exact ⟨by decide +kernel, inventory, (hinventory inventory).mpr rfl, hcode,
    hheld "f(1b ".toList 'x' "#;\n)".toList rfl hcode⟩

end Lexing
