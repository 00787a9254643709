import LispMachine.Proofs.Form.Grammar
/-!
# Rows are read

Tokens that spell a form are read as this form whatever follows, and any proper part of them in front of the
end of the text is refused because the text ends too early (`Readable`).  So a row of forms is read as these
forms (`Pieces.readEach`, and conversely `row_of_readEach`), and each part of it either reads or is refused
because the text ends too early (`readEach_part`).  What is left of a row after a part of it that is a row by
itself is the row of the remaining forms (`Row.drop_row`).
-/
namespace LispMachine

/-- The text ends too early. -/
def ReadError.IsCut : ReadError → Prop
  | .endOfInput | .unclosed _ => True
  | _ => False

namespace Form

/-- The reader gives up because the text ends too early. -/
def CutOff {α : Type} (x : Except (Fault ReadError) α) : Prop := ∃ fault, x = .error fault ∧ fault.cause.IsCut

theorem CutOff.bind {α β : Type} {x : Except (Fault ReadError) α} (h : CutOff x)
    (f : α → Except (Fault ReadError) β) : CutOff (x >>= f) := by
  obtain ⟨fault, rfl, hc⟩ := h
  exact ⟨fault, rfl, hc⟩

/-- One form that is read whatever follows, and that cannot be cut short. -/
structure Readable (ts : List Located) (f : Form) : Prop where
  whole : ∀ {n} rest, 2 * ts.length ≤ n → read n (ts ++ rest) = .ok (f, rest)
  part : ∀ {n q r e}, ts = q ++ r → r ≠ [] → e.token = .eof → 2 * q.length ≤ n → CutOff (read n (q ++ [e]))

/-- A row, cut where its forms end. -/
inductive Pieces : List Located → List Form → Prop
  | nil : Pieces [] []
  | cons {ts us : List Located} {f : Form} {fs : List Form} (hf : Readable ts f)
      (hd : ∀ t ∈ ts.head?, t.token ≠ .discard) (row : Pieces us fs) : Pieces (ts ++ us) (f :: fs)
  | dropped {t : Located} {ts us : List Located} {f : Form} {fs : List Form} (ht : t.token = .discard)
      (hf : Readable ts f) (row : Pieces us fs) : Pieces (t :: (ts ++ us)) fs

/-! ## Ends -/

variable {t e c : Located} {ts us q r rest : List Located} {f g : Form} {fs gs xs : List Form} {n : Nat} {pos : Pos}

theorem read_eof (he : e.token = .eof) : CutOff (read n (e :: ts)) := by
  obtain ⟨token, pos⟩ := e
  obtain rfl := he
  cases n with
  | zero =>
    rw [read]
    exact ⟨_, rfl, trivial⟩
  | succ n =>
    rw [read]
    exact ⟨_, rfl, trivial⟩

/-- A part of two sequences ends in the first one or reaches into the second. -/
theorem part_cases (h : q ++ r = ts ++ us) : (∃ s, s ≠ [] ∧ ts = q ++ s) ∨ ∃ s, q = ts ++ s ∧ s ++ r = us := by
  rcases List.append_eq_append_iff.mp h with ⟨s, hs, hr⟩ | ⟨s, hs, hr⟩
  · cases s with
    | nil => exact .inr ⟨[], by simpa using hs.symm, by simpa using hr⟩
    | cons x s => exact .inl ⟨x :: s, by simp, hs⟩
  · exact .inr ⟨s, hs, hr.symm⟩

theorem Readable.head (h : Readable ts f) : ∃ t us, ts = t :: us ∧ ¬ isEnd t.token := by
  cases ts with
  | nil =>
    have := h.whole (n := 0) [] (by simp)
    rw [List.nil_append, read_nil] at this
    cases this
  | cons t us =>
    refine ⟨t, us, rfl, fun he => ?_⟩
    obtain ⟨fault, hfault⟩ := @read_end t us (2 * (t :: us).length) he
    have := h.whole [] (Nat.le_refl (2 * (t :: us).length))
    rw [List.append_nil, hfault] at this
    cases this

/-! ## The forms of a row -/

theorem Readable.atom (hf : atom? t = some f) : Readable [t] f := by
  constructor
  · intro n rest hn
    obtain ⟨n, rfl⟩ : ∃ m, n = m + 1 := ⟨n - 1, by simp at hn; omega⟩
    exact read_atom hf
  · intro n q r e h hr he hn
    cases q with
    | nil => exact read_eof he
    | cons x q =>
      obtain ⟨-, h⟩ := List.cons.inj h
      exact absurd (List.append_eq_nil_iff.mp h.symm).2 hr

theorem Readable.operand (h : Readable ts f) (hn : 2 * ts.length + 1 ≤ n) (rest : List Located) :
    readOperand n pos (ts ++ rest) = .ok (f, rest) := by
  obtain ⟨n, rfl⟩ : ∃ m, n = m + 1 := ⟨n - 1, by omega⟩
  obtain ⟨t, us, rfl, ht⟩ := h.head
  rw [readOperand_eq_read (by exact ht)]
  exact h.whole rest (by omega)

theorem Readable.operand_part (h : Readable ts f) (hq : ts = q ++ r) (hr : r ≠ []) (he : e.token = .eof)
    (hn : 2 * q.length + 1 ≤ n) : CutOff (readOperand n pos (q ++ [e])) := by
  obtain ⟨n, rfl⟩ : ∃ m, n = m + 1 := ⟨n - 1, by omega⟩
  rw [readOperand]
  split
  · exact ⟨_, rfl, trivial⟩
  · exact h.part hq hr he (by omega)

/-- A proper part of tokens with a mark in front is nothing, or the mark and a part of the tokens. -/
theorem cons_part (h : t :: ts = q ++ r) : q = [] ∨ ∃ s, q = t :: s ∧ ts = s ++ r := by
  cases q with
  | nil => exact .inl rfl
  | cons x q =>
    obtain ⟨rfl, hs⟩ := List.cons.inj h
    exact .inr ⟨q, rfl, hs⟩

theorem Readable.quoted {name : String} (hq : quoting? t.token = some name) (h : Readable ts f) :
    Readable (t :: ts) (placed (.list [sym name, f] none) t.pos) := by
  constructor
  · intro n rest hn
    rw [List.length_cons] at hn
    obtain ⟨n, rfl⟩ : ∃ m, n = m + 1 := ⟨n - 1, by omega⟩
    rw [List.cons_append, read_quoting hq, h.operand (by omega)]
    rfl
  · intro n q r e hts hr he hn
    rcases cons_part hts with rfl | ⟨s, rfl, hs⟩
    · exact read_eof he
    · rw [List.length_cons] at hn
      obtain ⟨n, rfl⟩ : ∃ m, n = m + 1 := ⟨n - 1, by omega⟩
      rw [List.cons_append, read_quoting hq]
      exact (h.operand_part hs hr he (by omega)).bind _

theorem Readable.annotated {data : Form} {extra : Info} (ht : t.token = .caret) (hdata : Readable ts data)
    (hf : Readable us f) (hm : metadataOf? data = some extra) (hg : annotate extra f t.pos = .ok g) :
    Readable (t :: (ts ++ us)) g := by
  constructor
  · intro n rest hn
    rw [List.length_cons, List.length_append] at hn
    obtain ⟨n, rfl⟩ : ∃ m, n = m + 1 := ⟨n - 1, by omega⟩
    rw [List.cons_append, List.append_assoc, read_caret ht, hdata.operand (by omega)]
    simp only [Except.bind, bind, hm, hf.operand (by omega : 2 * us.length + 1 ≤ n), hg]
    rfl
  · intro n q r e hts hr he hn
    rcases cons_part hts with rfl | ⟨s, rfl, hs⟩
    · exact read_eof he
    · rw [List.length_cons] at hn
      obtain ⟨n, rfl⟩ : ∃ m, n = m + 1 := ⟨n - 1, by omega⟩
      rw [List.cons_append, read_caret ht]
      rcases part_cases hs.symm with ⟨v, hv, hts⟩ | ⟨v, rfl, hus⟩
      · exact (hdata.operand_part hts hv he (by omega)).bind _
      · rw [List.length_append] at hn
        rw [List.append_assoc, hdata.operand (by omega)]
        simp only [Except.bind, bind, hm]
        exact (hf.operand_part hus.symm hr he (by omega)).bind _

theorem Readable.dropped (ht : t.token = .discard) (hg : Readable ts g) (hf : Readable us f) :
    Readable (t :: (ts ++ us)) f := by
  constructor
  · intro n rest hn
    rw [List.length_cons, List.length_append] at hn
    obtain ⟨n, rfl⟩ : ∃ m, n = m + 1 := ⟨n - 1, by omega⟩
    rw [List.cons_append, List.append_assoc, read_discard ht, hg.whole _ (by omega)]
    exact hf.whole _ (by omega)
  · intro n q r e hts hr he hn
    rcases cons_part hts with rfl | ⟨s, rfl, hs⟩
    · exact read_eof he
    · rw [List.length_cons] at hn
      obtain ⟨n, rfl⟩ : ∃ m, n = m + 1 := ⟨n - 1, by omega⟩
      rw [List.cons_append, read_discard ht]
      rcases part_cases hs.symm with ⟨v, hv, hts⟩ | ⟨v, rfl, hus⟩
      · exact (hg.part hts hv he (by omega)).bind _
      · rw [List.length_append] at hn
        rw [List.append_assoc, hg.whole _ (by omega)]
        exact hf.part hus.symm hr he (by omega)

/-! ## Items between brackets -/

section Items

variable {bracket : Bracket} {what : String} {start : Pos}

theorem Pieces.readItems (h : Pieces ts xs) (hc : bracket.closes c.token = true) (rest : List Located) :
    ∀ {n}, 2 * ts.length + 1 ≤ n → Form.readItems n bracket what start (ts ++ c :: rest) = .ok (xs, rest) := by
  induction h with
  | nil =>
    intro n hn
    obtain ⟨n, rfl⟩ : ∃ m, n = m + 1 := ⟨n - 1, by omega⟩
    exact readItems_close hc
  | @cons ts us f fs hf hd row ih =>
    intro n hn
    obtain ⟨t, ts, rfl, ht⟩ := hf.head
    rw [List.length_append, List.length_cons] at hn
    obtain ⟨n, rfl⟩ : ∃ m, n = m + 1 := ⟨n - 1, by omega⟩
    have hclose : bracket.closes t.token = false := by
      rw [← Bool.not_eq_true]
      exact fun h => ht (.inr ⟨bracket, h⟩)
    have hfirst := hf.whole (us ++ c :: rest) (by simp only [List.length_cons]; omega : 2 * (t :: ts).length ≤ n)
    rw [List.append_assoc, List.cons_append, readItems_item hclose (fun h => ht (.inl h)) (hd t rfl),
      ← List.cons_append, hfirst]
    simp only [bind, Except.bind, ih (by omega : 2 * us.length + 1 ≤ n)]
    rfl
  | @dropped t ts us f fs ht hf row ih =>
    intro n hn
    rw [List.length_cons, List.length_append] at hn
    obtain ⟨n, rfl⟩ : ∃ m, n = m + 1 := ⟨n - 1, by omega⟩
    rw [List.cons_append, List.append_assoc, readItems_discard ht, hf.whole _ (by omega)]
    exact ih (by omega)

theorem Pieces.readItems_part (h : Pieces ts xs) (he : e.token = .eof) : ∀ {n q r}, ts = q ++ r →
    2 * q.length + 1 ≤ n → CutOff (Form.readItems n bracket what start (q ++ [e])) := by
  have hend {n : Nat} : CutOff (Form.readItems n bracket what start ([] ++ [e])) :=
    ⟨_, readItems_eof he, trivial⟩
  induction h with
  | nil =>
    intro n q r hq hn
    obtain ⟨rfl, -⟩ := List.append_eq_nil_iff.mp hq.symm
    exact hend
  | @cons ts us f fs hf hd row ih =>
    intro n q r hq hn
    obtain ⟨t, ts, rfl, ht⟩ := hf.head
    rcases cons_part hq with rfl | ⟨s, rfl, hs⟩
    · exact hend
    · rw [List.length_cons] at hn
      obtain ⟨n, rfl⟩ : ∃ m, n = m + 1 := ⟨n - 1, by omega⟩
      have hclose : bracket.closes t.token = false := by
        rw [← Bool.not_eq_true]
        exact fun h => ht (.inr ⟨bracket, h⟩)
      rw [List.cons_append, readItems_item hclose (fun h => ht (.inl h)) (hd t rfl)]
      rcases part_cases hs.symm with ⟨v, hv, rfl⟩ | ⟨v, rfl, hus⟩
      · exact (hf.part (q := t :: s) rfl hv he (by simp only [List.length_cons]; omega)).bind _
      · rw [List.length_append] at hn
        have hfirst := hf.whole (v ++ [e]) (by simp only [List.length_cons]; omega : 2 * (t :: ts).length ≤ n)
        rw [List.append_assoc, ← List.cons_append, hfirst]
        exact (ih hus.symm (by omega)).bind _
  | @dropped t ts us f fs ht hf row ih =>
    intro n q r hq hn
    rcases cons_part hq with rfl | ⟨s, rfl, hs⟩
    · exact hend
    · rw [List.length_cons] at hn
      obtain ⟨n, rfl⟩ : ∃ m, n = m + 1 := ⟨n - 1, by omega⟩
      rw [List.cons_append, readItems_discard ht]
      rcases part_cases hs.symm with ⟨v, hv, rfl⟩ | ⟨v, rfl, hus⟩
      · exact (hf.part rfl hv he (by omega)).bind _
      · rw [List.length_append] at hn
        rw [List.append_assoc, hf.whole _ (by omega)]
        exact ih hus.symm (by omega)

end Items

theorem Readable.bracket {k : Enclosure} (hk : opening? t.token = some k) (hc : k.bracket.closes c.token = true)
    (items : Pieces ts xs) (hf : k.finish xs t.pos = .ok f) : Readable (t :: (ts ++ [c])) f := by
  constructor
  · intro n rest hn
    rw [List.length_cons, List.length_append] at hn
    obtain ⟨n, rfl⟩ : ∃ m, n = m + 1 := ⟨n - 1, by omega⟩
    rw [List.cons_append, List.append_assoc, read_opening hk]
    simp only [List.singleton_append, bind, Except.bind,
      items.readItems hc rest (by omega : 2 * ts.length + 1 ≤ n), hf]
    rfl
  · intro n q r e hts hr he hn
    rcases cons_part hts with rfl | ⟨s, rfl, hs⟩
    · exact read_eof he
    · rw [List.length_cons] at hn
      obtain ⟨n, rfl⟩ : ∃ m, n = m + 1 := ⟨n - 1, by omega⟩
      -- the closing bracket is missing
      obtain ⟨v, hv⟩ : ∃ v, ts = s ++ v := by
        rcases part_cases hs.symm with ⟨v, -, hts⟩ | ⟨v, -, hv⟩
        · exact ⟨v, hts⟩
        · rcases cons_part hv.symm with rfl | ⟨w, -, hw⟩
          · exact ⟨[], by simp_all⟩
          · exact absurd (List.append_eq_nil_iff.mp hw.symm).2 hr
      rw [List.cons_append, read_opening hk]
      exact (items.readItems_part he hv (by omega)).bind _

/-! ## Rows -/

/-- The first form of a row, with the forms that are dropped in front of it. -/
theorem Pieces.first (h : Pieces ts (f :: fs)) : ∃ pre us, ts = pre ++ us ∧ Readable pre f ∧ Pieces us fs := by
  generalize hgs : f :: fs = gs at h
  induction h with
  | nil => cases hgs
  | cons hf hd row ih =>
    obtain ⟨rfl, rfl⟩ := List.cons.inj hgs
    exact ⟨_, _, rfl, hf, row⟩
  | @dropped t ts us g gs ht hg row ih =>
    obtain ⟨pre, vs, rfl, hf, row⟩ := ih hgs
    exact ⟨t :: (ts ++ pre), vs, by simp, .dropped ht hg hf, row⟩

theorem quoting?_ne_discard {name : String} (h : quoting? t.token = some name) : t.token ≠ .discard := by
  intro hd
  rw [hd] at h
  cases h

theorem opening?_ne_discard {k : Enclosure} (h : opening? t.token = some k) : t.token ≠ .discard := by
  intro hd
  rw [hd] at h
  cases h

theorem atom?_ne_discard (h : atom? t = some f) : t.token ≠ .discard := by
  intro hd
  rw [atom?, hd] at h
  cases h

theorem Row.pieces (h : Row ts fs) : Pieces ts fs := by
  induction h with
  | done => exact .nil
  | atom hf row ih => exact .cons (.atom hf) (by simpa using atom?_ne_discard hf) ih
  | @bracket t c ts us k xs fs f hk hc items hf row ihItems ih =>
    have := Pieces.cons (.bracket hk hc ihItems hf) (by simpa using opening?_ne_discard hk) ih
    simpa using this
  | quoted hn row ih =>
    obtain ⟨pre, vs, rfl, hf, row⟩ := ih.first
    exact .cons (.quoted hn hf) (by simpa using quoting?_ne_discard hn) row
  | @annotated t us data f g extra fs ht row hm hg ih =>
    obtain ⟨pre, vs, rfl, hdata, row⟩ := ih.first
    obtain ⟨pre', vs', rfl, hf, row⟩ := row.first
    have := Pieces.cons (.annotated ht hdata hf hm hg) (by simp [ht]) row
    simpa using this
  | dropped ht row ih =>
    obtain ⟨pre, vs, rfl, hf, row⟩ := ih.first
    exact .dropped ht hf row

/-- Two readable forms at the head of the same tokens are the same. -/
theorem Readable.unique {pre : List Located} (hf : Readable ts f) (hg : Readable pre g) (h : ts ++ us = pre ++ rest) :
    ts = pre ∧ f = g ∧ us = rest := by
  have h1 := hf.whole (n := 2 * ts.length + 2 * pre.length) us (by omega)
  have h2 := hg.whole (n := 2 * ts.length + 2 * pre.length) rest (by omega)
  rw [h, h2] at h1
  obtain ⟨rfl, rfl⟩ := Prod.mk.inj (Except.ok.inj h1)
  exact ⟨List.append_cancel_right h, rfl, rfl⟩

/-- **What is left of a row behind a part of it that is a row by itself.** -/
theorem Pieces.drop_pieces (h : Pieces ts gs) : ∀ {fs}, Pieces (ts ++ us) fs → ∃ hs, fs = gs ++ hs ∧ Pieces us hs := by
  induction h with
  | nil =>
    intro fs h
    exact ⟨fs, rfl, h⟩
  | @cons ts vs g gs hg hd row ih =>
    intro fs h
    obtain ⟨t, ts', rfl, ht⟩ := hg.head
    generalize hall : (t :: ts' ++ vs) ++ us = all at h
    cases h with
    | nil => cases hall
    | @cons pre rest f fs hf _ row' =>
      rw [List.append_assoc] at hall
      obtain ⟨rfl, rfl, rfl⟩ := hg.unique hf hall
      obtain ⟨hs, rfl, hrest⟩ := ih row'
      exact ⟨hs, rfl, hrest⟩
    | dropped ht' _ _ =>
      obtain ⟨rfl, -⟩ := List.cons.inj hall
      exact absurd ht' (hd _ rfl)
  | @dropped t ts vs g gs ht hg row ih =>
    intro fs h
    generalize hall : (t :: (ts ++ vs)) ++ us = all at h
    cases h with
    | nil => cases hall
    | @cons pre rest f fs hf hd' row' =>
      obtain ⟨t', pre', rfl, -⟩ := hf.head
      obtain ⟨rfl, -⟩ := List.cons.inj hall
      exact absurd ht (hd' _ rfl)
    | @dropped t' pre rest f fs _ hf row' =>
      obtain ⟨rfl, htail⟩ := List.cons.inj hall
      have htail : ts ++ (vs ++ us) = pre ++ rest := (List.append_assoc _ _ _).symm.trans htail
      obtain ⟨rfl, -, rfl⟩ := hg.unique hf htail
      exact ih row'

/-! ## Whole texts -/

theorem nextWithin_eof (he : e.token = .eof) (hn : 0 < n) : nextWithin n (e :: ts) = .ok (none, e :: ts) := by
  obtain ⟨n, rfl⟩ : ∃ m, n = m + 1 := ⟨n - 1, by omega⟩
  obtain ⟨token, pos⟩ := e
  obtain rfl := he
  rfl

theorem nextWithin_discard (ht : t.token = .discard) : nextWithin (n + 1) (t :: ts) = (do
    let (_, rest) ← read (readFuel (t :: ts)) ts
    nextWithin n rest) := by
  obtain ⟨token, pos⟩ := t
  obtain rfl := ht
  rfl

theorem nextWithin_form (he : t.token ≠ .eof) (hd : t.token ≠ .discard) : nextWithin (n + 1) (t :: ts) = (do
    let (form, rest) ← read (readFuel (t :: ts)) (t :: ts)
    return (some form, rest)) := by
  obtain ⟨token, pos⟩ := t
  cases token <;> first | rfl | exact absurd rfl he | exact absurd rfl hd

/-- What the reader finds next in a part of a row: it gives up because the part ends too early, or nothing is left
of the part, or it finds the first form of the row. -/
theorem Pieces.nextWithin_part (h : Pieces ts fs) (he : e.token = .eof) : ∀ {n q r}, ts = q ++ r → q.length < n →
    (r ≠ [] ∧ CutOff (nextWithin n (q ++ [e]))) ∨
    (nextWithin n (q ++ [e]) = .ok (none, [e]) ∧ (r = [] → fs = [])) ∨
    ∃ f gs s, fs = f :: gs ∧ s.length < q.length ∧ Pieces (s ++ r) gs ∧
      nextWithin n (q ++ [e]) = .ok (some f, s ++ [e]) := by
  induction h with
  | nil =>
    intro n q r hq hn
    obtain ⟨rfl, rfl⟩ := List.append_eq_nil_iff.mp hq.symm
    exact .inr (.inl ⟨nextWithin_eof he hn, fun _ => rfl⟩)
  | @cons ts us f fs hf hd row ih =>
    intro n q r hq hn
    obtain ⟨t, ts, rfl, ht⟩ := hf.head
    rcases cons_part hq with rfl | ⟨s, rfl, hs⟩
    · refine .inr (.inl ⟨nextWithin_eof he hn, fun hr => ?_⟩)
      rw [hr] at hq
      cases hq
    · obtain ⟨n, rfl⟩ : ∃ m, n = m + 1 := ⟨n - 1, by omega⟩
      rw [List.cons_append, nextWithin_form (fun h => ht (.inl h)) (hd t rfl)]
      rcases part_cases hs.symm with ⟨v, hv, rfl⟩ | ⟨v, rfl, hus⟩
      · refine .inl ⟨?_, (hf.part (q := t :: s) rfl hv he (by simp only [readFuel, List.length_cons, List.length_append]; omega)).bind _⟩
        rintro rfl
        exact hv (List.append_eq_nil_iff.mp (by simpa using hs)).1
      · refine .inr (.inr ⟨f, fs, v, rfl, by simp only [List.length_cons, List.length_append]; omega, hus ▸ row, ?_⟩)
        rw [List.append_assoc, ← List.cons_append, hf.whole _ (by simp only [readFuel, List.length_cons, List.length_append]; omega)]
        rfl
  | @dropped t ts us f fs ht hf row ih =>
    intro n q r hq hn
    rcases cons_part hq with rfl | ⟨s, rfl, hs⟩
    · refine .inr (.inl ⟨nextWithin_eof he hn, fun hr => ?_⟩)
      rw [hr] at hq
      cases hq
    · obtain ⟨n, rfl⟩ : ∃ m, n = m + 1 := ⟨n - 1, by omega⟩
      rw [List.cons_append, nextWithin_discard ht]
      rcases part_cases hs.symm with ⟨v, hv, rfl⟩ | ⟨v, rfl, hus⟩
      · refine .inl ⟨?_, (hf.part rfl hv he (by simp only [readFuel, List.length_cons, List.length_append]; omega)).bind _⟩
        rintro rfl
        exact hv (List.append_eq_nil_iff.mp (by simpa using hs)).1
      · rw [List.length_cons, List.length_append] at hn
        rw [List.append_assoc, hf.whole _ (by simp only [readFuel, List.length_cons, List.length_append]; omega)]
        rcases ih hus.symm (by omega : v.length < n) with h | h | ⟨f, gs, s, hfs, hlt, hs, h⟩
        · exact .inl h
        · exact .inr (.inl h)
        · exact .inr (.inr ⟨f, gs, s, hfs, by simp only [List.length_cons, List.length_append]; omega, hs, h⟩)

theorem length_lt_append (ts us : List Located) : ts.length < (ts ++ us).length + 1 := by
  rw [List.length_append]
  omega

theorem readEachWithin_part (he : e.token = .eof) : ∀ {n q fs}, Pieces (q ++ r) fs → q.length < n →
    (readEachWithin n (q ++ [e])).2 = none ∨
      ∃ fault, (readEachWithin n (q ++ [e])).2 = some fault ∧ fault.cause.IsCut := by
  intro n
  induction n with
  | zero => exact fun _ hn => absurd hn (Nat.not_lt_zero _)
  | succ n ih =>
    intro q fs h hn
    rw [readEachWithin, next?]
    rcases h.nextWithin_part he rfl (length_lt_append q [e]) with ⟨-, fault, hf, hc⟩ | ⟨hf, -⟩ |
      ⟨f, gs, s, -, hlt, hs, hf⟩
    · rw [hf]
      exact .inr ⟨fault, rfl, hc⟩
    · rw [hf]
      exact .inl rfl
    · rw [hf]
      exact ih hs (by omega)

theorem readEachWithin_pieces (he : e.token = .eof) : ∀ {n ts fs}, Pieces ts fs → ts.length < n →
    readEachWithin n (ts ++ [e]) = (fs, none) := by
  intro n
  induction n with
  | zero => exact fun _ hn => absurd hn (Nat.not_lt_zero _)
  | succ n ih =>
    intro ts fs h hn
    rw [readEachWithin, next?]
    rcases h.nextWithin_part he (List.append_nil ts).symm (length_lt_append ts [e]) with
      ⟨hr, -⟩ | ⟨hf, hfs⟩ | ⟨f, gs, s, rfl, hlt, hs, hf⟩
    · exact absurd rfl hr
    · rw [hf, hfs rfl]
    · rw [List.append_nil] at hs
      rw [hf]
      simp only [ih hs (by omega)]

/-- **A part of a row reads, or is refused because the text ends too early.** -/
theorem readEach_part (h : Row (q ++ r) fs) (he : e.token = .eof) : (readEach (q ++ [e])).2 = none ∨
    ∃ fault, (readEach (q ++ [e])).2 = some fault ∧ fault.cause.IsCut :=
  readEachWithin_part he h.pieces (length_lt_append q [e])

/-- **A row is read as the forms that it spells.** -/
theorem Pieces.readEach (h : Pieces ts fs) (he : e.token = .eof) : Form.readEach (ts ++ [e]) = (fs, none) :=
  readEachWithin_pieces he h (length_lt_append ts [e])

theorem Pieces.next?_eq (h : Pieces ts fs) (he : e.token = .eof) :
    (fs = [] ∧ next? (ts ++ [e]) = .ok (none, [e])) ∨
      ∃ f gs us, fs = f :: gs ∧ Pieces us gs ∧ next? (ts ++ [e]) = .ok (some f, us ++ [e]) := by
  rcases h.nextWithin_part he (List.append_nil ts).symm (length_lt_append ts [e]) with
    ⟨hr, -⟩ | ⟨hf, hfs⟩ | ⟨f, gs, s, rfl, -, hs, hf⟩
  · exact absurd rfl hr
  · exact .inl ⟨hfs rfl, hf⟩
  · exact .inr ⟨f, gs, s, rfl, by simpa using hs, hf⟩

theorem Row.readSingle (h : Row ts [f]) (he : e.token = .eof) : Form.readSingle (ts ++ [e]) = .ok f := by
  rcases h.pieces.next?_eq he with ⟨hnil, -⟩ | ⟨g, gs, us, hfs, hus, hnext⟩
  · cases hnil
  · obtain ⟨rfl, rfl⟩ := List.cons.inj hfs
    rcases hus.next?_eq he with ⟨-, hend⟩ | ⟨_, _, _, hgs, -, -⟩
    · rw [Form.readSingle, hnext]
      simp only [bind, Except.bind, hend]
      rfl
    · cases hgs

/-! ## Only rows are read -/

theorem Row.ne_eof (h : Row ts fs) : ∀ t ∈ ts, t.token ≠ .eof := by
  induction h with
  | done =>
    intro t ht
    cases ht
  | @atom t us f fs hf row ih =>
    rw [List.forall_mem_cons]
    refine ⟨fun he => ?_, ih⟩
    rw [atom?, he] at hf
    cases hf
  | @bracket t c ts us k xs fs f hk hc items hf row ihItems ih =>
    rw [List.forall_mem_cons, List.forall_mem_append, List.forall_mem_cons]
    refine ⟨fun he => ?_, ihItems, fun he => ?_, ih⟩
    · rw [he] at hk
      cases hk
    · rw [he] at hc
      cases hb : k.bracket <;> rw [hb] at hc <;> cases hc
  | quoted hn row ih =>
    rw [List.forall_mem_cons]
    refine ⟨fun he => ?_, ih⟩
    rw [he] at hn
    cases hn
  | annotated ht row hm hg ih =>
    rw [List.forall_mem_cons]
    exact ⟨by simp [ht], ih⟩
  | dropped ht row ih =>
    rw [List.forall_mem_cons]
    exact ⟨by simp [ht], ih⟩

theorem Row.eq_nil (h : Row [] fs) : fs = [] := by
  cases h
  rfl

/-- The tokens of a form do not reach beyond the end of the text. -/
theorem Passed.before_eof (h : Passed (ts ++ us) (f, rest)) (he : tokenOf us = .eof) :
    ∃ pre vs, ts = pre ++ vs ∧ rest = vs ++ us ∧ vs.length < ts.length ∧ Spells pre f := by
  obtain ⟨pre, hpre, hspells⟩ := h
  have hne : ∀ t ∈ pre, t.token ≠ .eof := by
    have := (hspells [] [] .done).ne_eof
    rwa [List.append_nil] at this
  have hpos : 0 < pre.length := by
    cases pre with
    | nil => cases (hspells [] [] .done).eq_nil
    | cons t pre => exact Nat.succ_pos _
  rcases part_cases hpre.symm with ⟨vs, -, rfl⟩ | ⟨s, rfl, hs⟩
  · refine ⟨pre, vs, rfl, by simpa using hpre.symm, ?_, hspells⟩
    rw [List.length_append]
    omega
  · cases s with
    | nil =>
      rw [List.append_nil] at hpos hspells
      exact ⟨ts, [], (List.append_nil ts).symm, hs, hpos, hspells⟩
    | cons t s =>
      rw [← hs] at he
      exact absurd he (hne t (by simp))

theorem nextWithin_end (he : tokenOf us = .eof) (hn : 0 < n) : nextWithin n us = .ok (none, us) := by
  cases us with
  | nil =>
    obtain ⟨n, rfl⟩ : ∃ m, n = m + 1 := ⟨n - 1, by omega⟩
    rfl
  | cons e us => exact nextWithin_eof he hn

theorem row_of_nextWithin {o : Option Form} (he : tokenOf us = .eof) : ∀ {n ts}, (∀ t ∈ ts, t.token ≠ .eof) →
    ts.length < n → nextWithin n (ts ++ us) = .ok (o, rest) →
    (o = none ∧ Row ts []) ∨ ∃ f vs, o = some f ∧ rest = vs ++ us ∧ vs.length < ts.length ∧ vs <:+ ts ∧
      ∀ fs, Row vs fs → Row ts (f :: fs) := by
  intro n
  induction n with
  | zero => exact fun _ hn => absurd hn (Nat.not_lt_zero _)
  | succ n ih =>
    intro ts hts hn h
    cases ts with
    | nil =>
      rw [List.nil_append, nextWithin_end he (Nat.succ_pos n)] at h
      obtain ⟨rfl, -⟩ := Prod.mk.inj (Except.ok.inj h)
      exact .inl ⟨rfl, .done⟩
    | cons t ts =>
      by_cases hd : t.token = .discard
      · rw [List.cons_append, nextWithin_discard hd] at h
        obtain ⟨⟨g, mid⟩, hg, hnext⟩ := exists_of_bind h
        obtain ⟨pre, vs, rfl, rfl, hlt, hspells⟩ := ((sound _).form hg).before_eof he
        have hvs : ∀ v ∈ vs, v.token ≠ .eof := fun v hv => hts v (by simp [hv])
        rw [List.length_cons] at hn
        rcases ih hvs (by omega) hnext with ⟨rfl, row⟩ | ⟨f, ws, rfl, rfl, hlt', hsuf, hrow⟩
        · exact .inl ⟨rfl, .dropped hd (hspells _ _ row)⟩
        · refine .inr ⟨f, ws, rfl, rfl, by simp only [List.length_cons, List.length_append] at hlt ⊢; omega, ?_, fun fs hfs => .dropped hd (hspells _ _ (hrow fs hfs))⟩
          exact hsuf.trans ((List.suffix_append pre vs).trans (List.suffix_cons t _))
      · rw [List.cons_append, nextWithin_form (hts t List.mem_cons_self) hd, ← List.cons_append] at h
        obtain ⟨⟨f, mid⟩, hf, h⟩ := exists_of_bind h
        obtain ⟨rfl, rfl⟩ := Prod.mk.inj (Except.ok.inj h)
        obtain ⟨pre, vs, hpre, rfl, hlt, hspells⟩ := ((sound _).form hf).before_eof he
        refine .inr ⟨f, vs, rfl, rfl, hlt, hpre ▸ List.suffix_append pre vs, fun fs hfs => ?_⟩
        rw [hpre]
        exact hspells vs fs hfs

theorem row_of_readEachWithin (he : tokenOf us = .eof) : ∀ {n ts fs}, (∀ t ∈ ts, t.token ≠ .eof) → ts.length < n →
    readEachWithin n (ts ++ us) = (fs, none) → Row ts fs := by
  intro n
  induction n with
  | zero => exact fun _ hn => absurd hn (Nat.not_lt_zero _)
  | succ n ih =>
    intro ts fs hts hn h
    rw [readEachWithin] at h
    cases hnext : next? (ts ++ us) with
    | error fault =>
      rw [hnext] at h
      cases h
    | ok p =>
      obtain ⟨o, rest⟩ := p
      rw [hnext] at h
      rcases row_of_nextWithin he hts (length_lt_append ts us) hnext with ⟨rfl, row⟩ | ⟨f, vs, rfl, rfl, hlt, hsuf, hrow⟩
      · obtain ⟨rfl, -⟩ := Prod.mk.inj h
        exact row
      · obtain ⟨rfl, hfault⟩ := Prod.mk.inj h
        exact hrow _ (ih (fun v hv => hts v (hsuf.subset hv)) (by omega) (Prod.ext rfl hfault))

/-- **Whatever reads as a sequence of forms is a row of these forms.** -/
theorem row_of_readEach (he : tokenOf us = .eof) (hts : ∀ t ∈ ts, t.token ≠ .eof)
    (h : Form.readEach (ts ++ us) = (fs, none)) : Row ts fs :=
  row_of_readEachWithin he hts (length_lt_append ts us) h

theorem row_of_readSingle (he : tokenOf us = .eof) (hts : ∀ t ∈ ts, t.token ≠ .eof)
    (h : Form.readSingle (ts ++ us) = .ok f) : Row ts [f] := by
  rw [Form.readSingle] at h
  obtain ⟨⟨o, rest⟩, hfirst, h⟩ := exists_of_bind h
  rcases row_of_nextWithin he hts (length_lt_append ts us) hfirst with ⟨rfl, -⟩ | ⟨g, vs, rfl, rfl, -, hsuf, hrow⟩
  · cases h
  · obtain ⟨⟨o, rest⟩, hsecond, h⟩ := exists_of_bind h
    rcases row_of_nextWithin he (fun v hv => hts v (hsuf.subset hv)) (length_lt_append vs us) hsecond with
      ⟨rfl, row⟩ | ⟨_, _, rfl, -⟩
    · obtain rfl := Except.ok.inj h
      exact hrow _ row
    · cases h

/-- **What is left of a row behind a part of it that is a row by itself.** -/
theorem Row.drop_row (h : Row ts gs) (hall : Row (ts ++ us) fs) : ∃ hs, fs = gs ++ hs ∧ Row us hs := by
  obtain ⟨hs, rfl, hus⟩ := h.pieces.drop_pieces hall.pieces
  have hne : ∀ u ∈ us, u.token ≠ .eof := fun u hu => hall.ne_eof u (List.mem_append_right _ hu)
  exact ⟨hs, rfl, row_of_readEach rfl hne (hus.readEach (e := ⟨.eof, .start⟩) rfl)⟩

end Form

end LispMachine
