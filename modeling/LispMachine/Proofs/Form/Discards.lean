import LispMachine.Proofs.Form.Joined
/-!
# Dropped forms

`#_` in front of a form drops the form.  It may stand wherever a token may stand in a row of forms, in front of the closing
bracket too: the tokens spell the same forms as without it (`Row.insert`).  The reader accepts just the rows, up to the first
token that ends the text (`readEach_eq_iff`); so to the reader too a dropped form makes no difference (`readEach_insert`).
-/
namespace LispMachine.Form

variable {t e : Located} {ts us q r g : List Located} {f d : Form} {fs gs : List Form}

/-! ## Rows -/

theorem Row.append (h : Row ts fs) (h' : Row us gs) : Row (ts ++ us) (fs ++ gs) := by
  induction h with
  | done => exact h'
  | atom hf _ ih => exact .atom hf ih
  | bracket hk hc items hf _ _ ih =>
    rw [List.cons_append, List.append_assoc, List.cons_append]
    exact .bracket hk hc items hf ih
  | quoted hn _ ih => exact .quoted hn ih
  | annotated ht _ hm hg ih => exact .annotated ht ih hm hg
  | dropped ht _ ih => exact .dropped ht ih

/-- A dropped form in front of a row. -/
theorem Row.drop (ht : t.token = .discard) (hg : Row g [d]) (h : Row ts fs) : Row (t :: (g ++ ts)) fs := .dropped ht (hg.append h)

/-- **A dropped form may stand anywhere in a row.**  By induction on the row; within it the form stands in front of the rest of
the row, among the items of a bracket or behind the last of them. -/
theorem Row.insert (h : Row ts fs) (ht : t.token = .discard) (hg : Row g [d]) :
    ∀ {q r}, ts = q ++ r → Row (q ++ t :: (g ++ r)) fs := by
  have hfront {us r : List Located} {fs : List Form} (h : Row us fs) (hr : us = [] ++ r) : Row ([] ++ t :: (g ++ r)) fs := by
    obtain rfl : us = r := hr
    exact .drop ht hg h
  induction h with
  | done =>
    intro q r hq
    obtain ⟨rfl, rfl⟩ := List.append_eq_nil_iff.1 hq.symm
    exact hfront .done rfl
  | atom hf row ih =>
    intro q r hq
    rcases cons_part hq with rfl | ⟨s, rfl, hs⟩
    · exact hfront (.atom hf row) hq
    · exact .atom hf (ih hs)
  | @bracket u c items us k xs fs f hk hc hitems hf row ihItems ih =>
    intro q r hq
    rcases cons_part hq with rfl | ⟨s, rfl, hs⟩
    · exact hfront (.bracket hk hc hitems hf row) hq
    rcases part_cases hs.symm with ⟨v, -, hv⟩ | ⟨v, rfl, hv⟩
    · obtain rfl : v ++ c :: us = r := by
        rw [hv, List.append_assoc] at hs
        exact List.append_cancel_left hs
      have := Row.bracket hk hc (ihItems hv) hf row
      simpa using this
    · cases v with
      | nil =>
        obtain rfl : r = c :: us := hv
        have := Row.bracket hk hc (ihItems (List.append_nil items).symm) hf row
        simpa using this
      | cons w v =>
        obtain ⟨rfl, hvr⟩ := List.cons.inj hv
        have := Row.bracket hk hc hitems hf (ih hvr.symm)
        simpa using this
  | quoted hn row ih =>
    intro q r hq
    rcases cons_part hq with rfl | ⟨s, rfl, hs⟩
    · exact hfront (.quoted hn row) hq
    · exact .quoted hn (ih hs)
  | annotated hc row hm ha ih =>
    intro q r hq
    rcases cons_part hq with rfl | ⟨s, rfl, hs⟩
    · exact hfront (.annotated hc row hm ha) hq
    · exact .annotated hc (ih hs) hm ha
  | dropped hd row ih =>
    intro q r hq
    rcases cons_part hq with rfl | ⟨s, rfl, hs⟩
    · exact hfront (.dropped hd row) hq
    · exact .dropped hd (ih hs)

/-! ## What the reader accepts -/

/-- Tokens of which none ends the text, and which read as exactly one form. -/
structure ReadsAsOne (g : List Located) : Prop where
  endless : ∀ t ∈ g, t.token ≠ .eof
  single : ∃ d, readSingle g = .ok d

theorem ReadsAsOne.exists_row (h : ReadsAsOne g) : ∃ d, Row g [d] := by
  obtain ⟨d, hd⟩ := h.single
  rw [← List.append_nil g] at hd
  exact ⟨d, row_of_readSingle rfl h.endless hd⟩

/-- A text ends at the first token that says so, or behind the last one. -/
theorem exists_end (ts : List Located) : ∃ us vs, ts = us ++ vs ∧ (∀ t ∈ us, t.token ≠ .eof) ∧ tokenOf vs = .eof := by
  induction ts with
  | nil => exact ⟨[], [], rfl, List.forall_mem_nil _, rfl⟩
  | cons t ts ih =>
    by_cases ht : t.token = .eof
    · exact ⟨[], t :: ts, rfl, List.forall_mem_nil _, ht⟩
    · obtain ⟨us, vs, rfl, hus, hvs⟩ := ih
      exact ⟨t :: us, vs, rfl, List.forall_mem_cons.2 ⟨ht, hus⟩, hvs⟩

theorem readEach_end (h : tokenOf ts = .eof) : readEach ts = ([], none) := by
  rw [readEach, readEachWithin, next?, nextWithin_end h (Nat.succ_pos _)]

/-- **The reader accepts just the rows**: the tokens in front of the end of the text spell the forms. -/
theorem readEach_eq_iff (hts : ∀ t ∈ ts, t.token ≠ .eof) (hus : tokenOf us = .eof) :
    readEach (ts ++ us) = (fs, none) ↔ Row ts fs := by
  refine ⟨row_of_readEach hus hts, fun h => ?_⟩
  rw [h.pieces.readEach_append, readEach_end hus, List.append_nil]

/-- **A dropped form is invisible.**  If a mark that drops a form, and the tokens of one form behind it, are put in front of any
token of a sequence that reads, or behind the last one, then it reads as the same forms, with the same metadata. -/
theorem readEach_insert {mark : Located} (hmark : mark.token = .discard) {dropped : List Located} (hdropped : ReadsAsOne dropped)
    {before after : List Located} {forms : List Form} (h : readEach (before ++ after) = (forms, none)) :
    readEach (before ++ mark :: (dropped ++ after)) = (forms, none) := by
  obtain ⟨d, hd⟩ := hdropped.exists_row
  obtain ⟨us, vs, hsplit, hus, hvs⟩ := exists_end (before ++ after)
  rw [hsplit] at h
  have hrow := (readEach_eq_iff hus hvs).1 h
  have hinside {q r : List Located} (hq : us = q ++ r) : readEach (q ++ mark :: (dropped ++ r) ++ vs) = (forms, none) := by
    have hnew := hrow.insert hmark hd hq
    exact (readEach_eq_iff hnew.ne_eof hvs).2 hnew
  rcases part_cases hsplit with ⟨s, -, hs⟩ | ⟨s, rfl, hs⟩
  · obtain rfl : after = s ++ vs := by
      rw [hs, List.append_assoc] at hsplit
      exact List.append_cancel_left hsplit
    have := hinside hs
    simpa using this
  · cases s with
    | nil =>
      obtain rfl : after = vs := hs
      have := hinside (List.append_nil us).symm
      simpa using this
    | cons e s =>
      -- behind the end of the text nothing is read
      have he : tokenOf (e :: (s ++ mark :: (dropped ++ after))) = .eof := by
        rw [← hs] at hvs
        exact hvs
      have := (readEach_eq_iff hus he).2 hrow
      simpa using this

/-- `(^:k b 'c)`. -/
def annotatedTokens : List Located :=
  [⟨.openParen, ⟨1, 1⟩⟩, ⟨.caret, ⟨1, 2⟩⟩, ⟨.keyword "k", ⟨1, 3⟩⟩, ⟨.symbol "b", ⟨1, 6⟩⟩, ⟨.quote, ⟨1, 8⟩⟩,
    ⟨.symbol "c", ⟨1, 9⟩⟩, ⟨.closeParen, ⟨1, 10⟩⟩, ⟨.eof, ⟨1, 11⟩⟩]

/-- `#_x [y]`. -/
def vectorTokens : List Located :=
  [⟨.discard, ⟨3, 1⟩⟩, ⟨.symbol "x", ⟨3, 3⟩⟩, ⟨.openBracket, ⟨3, 5⟩⟩, ⟨.symbol "y", ⟨3, 6⟩⟩, ⟨.closeBracket, ⟨3, 7⟩⟩]

/-- Behind the marks, in front of the closing bracket and in front of the end. -/
theorem readEach_insert_everywhere : ReadsAsOne vectorTokens ∧ ∃ forms, forms.map render = ["(b (quote c))"] ∧
    readEach annotatedTokens = (forms, none) ∧
    ∀ n, readEach (annotatedTokens.take n ++ ⟨.discard, ⟨2, 1⟩⟩ :: (vectorTokens ++ annotatedTokens.drop n)) = (forms, none) := by
  have hone : ReadsAsOne vectorTokens := by
    refine ⟨?_, ?_⟩
    · simp [vectorTokens]
    · have hok : (readSingle vectorTokens).toOption.isSome = true := by decide +kernel
      cases h : readSingle vectorTokens with
      | error e =>
        rw [h] at hok
        cases hok
      | ok d => exact ⟨d, rfl⟩
  have hread : readEach annotatedTokens = ((readEach annotatedTokens).1, none) := by
    have hok : (readEach annotatedTokens).2.isNone = true := by decide +kernel
    exact Prod.ext rfl (Option.isNone_iff_eq_none.1 hok)
  refine ⟨hone, _, by decide +kernel, hread, fun n => readEach_insert rfl hone ?_⟩
  rw [List.take_append_drop]
  exact hread

end LispMachine.Form
