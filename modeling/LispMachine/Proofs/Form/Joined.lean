import LispMachine.Proofs.Form.Faults
import LispMachine.Proofs.Form.Lines
import LispMachine.Proofs.Form.Texts
/-!
# Joined texts

Two texts are joined by a line break.  Behind a row of forms the reader goes on as if the row were not there
(`Pieces.readEach_append`), and from tokens that stand further down it makes the same forms with the lines that it
assigns further down (`readEach_down`).  With the tokens of the joined text this gives its forms and its errors
(`readAll_joined`).
-/
namespace LispMachine

namespace Form

variable {e t : Located} {ts us vs rest : List Located} {f : Form} {fs gs : List Form} {n m : Nat} {p : Pos}

/-! ## Bounds -/

theorem Passed.length_lt {r : Form × List Located} (h : Passed ts r) : r.2.length < ts.length := by
  obtain ⟨pre, rfl, hspells⟩ := h
  cases pre with
  | nil => cases (hspells [] [] .done).eq_nil
  | cons t pre =>
    simp only [List.cons_append, List.length_cons, List.length_append]
    omega

/-- A bound of the dropped forms that is large enough makes no difference. -/
theorem nextWithin_bound (hn : ts.length < n) (hm : ts.length < m) : nextWithin n ts = nextWithin m ts := by
  induction n generalizing m ts with
  | zero => exact absurd hn (Nat.not_lt_zero _)
  | succ n ih =>
    obtain ⟨m, rfl⟩ : ∃ l, m = l + 1 := ⟨m - 1, by omega⟩
    by_cases he : tokenOf ts = .eof
    · rw [nextWithin, nextWithin, he]
    obtain ⟨t, ts, rfl⟩ : ∃ t us, ts = t :: us := by
      cases ts with
      | nil => exact absurd rfl he
      | cons t us => exact ⟨t, us, rfl⟩
    by_cases hd : t.token = .discard
    · rw [nextWithin_discard hd, nextWithin_discard hd]
      cases hread : read (readFuel (t :: ts)) ts with
      | error fault => rfl
      | ok r =>
        have hlt := ((sound _).form hread).length_lt
        rw [List.length_cons] at hn hm
        exact ih (by omega) (by omega)
    · rw [nextWithin_form he hd, nextWithin_form he hd]

theorem length_of_nextWithin (h : nextWithin n ts = .ok (some f, rest)) : rest.length < ts.length := by
  induction n generalizing ts with
  | zero => cases h
  | succ n ih =>
    by_cases he : tokenOf ts = .eof
    · rw [nextWithin, he] at h
      cases h
    obtain ⟨t, ts, rfl⟩ : ∃ t us, ts = t :: us := by
      cases ts with
      | nil => exact absurd rfl he
      | cons t us => exact ⟨t, us, rfl⟩
    by_cases hd : t.token = .discard
    · rw [nextWithin_discard hd] at h
      obtain ⟨r, hread, hnext⟩ := exists_of_bind h
      have hlt := ((sound _).form hread).length_lt
      have := ih hnext
      rw [List.length_cons]
      omega
    · rw [nextWithin_form he hd] at h
      obtain ⟨r, hread, hr⟩ := exists_of_bind h
      obtain ⟨-, rfl⟩ := Prod.mk.inj (Except.ok.inj hr)
      exact ((sound _).form hread).length_lt

/-- A bound of the forms that is large enough makes no difference. -/
theorem readEachWithin_bound (hn : ts.length < n) : readEachWithin n ts = readEach ts := by
  suffices ∀ {n m ts}, ts.length < n → ts.length < m → readEachWithin n ts = readEachWithin m ts from
    this hn (Nat.lt_succ_self _)
  intro n
  induction n with
  | zero => exact fun hn => absurd hn (Nat.not_lt_zero _)
  | succ n ih =>
    intro m ts hn hm
    obtain ⟨m, rfl⟩ : ∃ l, m = l + 1 := ⟨m - 1, by omega⟩
    rw [readEachWithin, readEachWithin]
    cases hnext : next? ts with
    | error fault => rfl
    | ok r =>
      obtain ⟨o, rest⟩ := r
      cases o with
      | none => rfl
      | some f =>
        have hlt := length_of_nextWithin hnext
        dsimp only
        rw [ih (by omega) (by omega : rest.length < m)]

/-! ## A row in front of other tokens -/

theorem Pieces.nextWithin_append (h : Pieces ts fs) (us : List Located) : ∀ {n}, (ts ++ us).length < n →
    (fs = [] ∧ nextWithin n (ts ++ us) = next? us) ∨
      ∃ f gs vs, fs = f :: gs ∧ Pieces vs gs ∧ nextWithin n (ts ++ us) = .ok (some f, vs ++ us) := by
  induction h with
  | nil => exact fun hn => .inl ⟨rfl, nextWithin_bound hn (Nat.lt_succ_self _)⟩
  | @cons ts vs f fs hf hd row ih =>
    intro n hn
    obtain ⟨t, ts, rfl, ht⟩ := hf.head
    obtain ⟨n, rfl⟩ : ∃ m, n = m + 1 := ⟨n - 1, by omega⟩
    refine .inr ⟨f, fs, vs, rfl, row, ?_⟩
    have hfirst := hf.whole (n := readFuel (t :: ts ++ vs ++ us)) (vs ++ us)
      (by simp only [readFuel, List.length_append]; omega)
    rw [← List.append_assoc] at hfirst
    simp only [List.cons_append] at hfirst ⊢
    rw [nextWithin_form (fun h => ht (.inl h)) (hd t rfl), hfirst]
    rfl
  | @dropped t ts vs f fs ht hf row ih =>
    intro n hn
    simp only [List.cons_append, List.append_assoc, List.length_cons, List.length_append] at hn ih ⊢
    obtain ⟨n, rfl⟩ : ∃ m, n = m + 1 := ⟨n - 1, by omega⟩
    have hfirst := hf.whole (n := readFuel (t :: (ts ++ (vs ++ us)))) (vs ++ us)
      (by simp only [readFuel, List.length_cons, List.length_append]; omega)
    rw [nextWithin_discard ht, hfirst]
    exact ih (by omega)

/-- **Behind a row of forms** the reader goes on as if the row were not there. -/
theorem Pieces.readEach_append (h : Pieces ts fs) (us : List Located) :
    Form.readEach (ts ++ us) = (fs ++ (Form.readEach us).1, (Form.readEach us).2) := by
  suffices ∀ {n ts fs}, Pieces ts fs → (ts ++ us).length < n →
      readEachWithin n (ts ++ us) = (fs ++ (Form.readEach us).1, (Form.readEach us).2) from this h (Nat.lt_succ_self _)
  intro n
  induction n with
  | zero => exact fun _ hn => absurd hn (Nat.not_lt_zero _)
  | succ n ih =>
    intro ts fs h hn
    rw [readEachWithin]
    rcases h.nextWithin_append us (Nat.lt_succ_self _) with ⟨rfl, hnext⟩ | ⟨f, gs, vs, rfl, hvs, hnext⟩
    · have hus : us.length < n + 1 := by
        rw [List.length_append] at hn
        omega
      have hall := readEachWithin_bound hus
      rw [readEachWithin] at hall
      rw [next?, hnext, hall]
      rfl
    · have hlt := length_of_nextWithin hnext
      rw [next?, hnext]
      dsimp only
      rw [ih hvs (by omega)]
      rfl

/-! ## Lines that the reader assigns -/

/-- The forms of a text, with the lines that the reader assigns raised beyond all lines that can be written in
metadata.  So the two can be told apart. -/
def traced (s : String) : Except SourceError (List Form) := do
  match readEach ((← tokensOf s).map (Located.down Meta.beyond)) with
  | (_, some fault) => .error (.read fault)
  | (forms, none) => return forms

/-- A line that the reader assigned, so many lines further down than in its text; a line that was written stays. -/
def settleLine (k line : Nat) : Nat := if line < Meta.beyond then line else line - Meta.beyond + k

/-- The form where it stands if its text starts so many lines further down. -/
def settle (k : Nat) : Form → Form := mapLines (settleLine k)

theorem keepsWritten_settleLine (k : Nat) : KeepsWritten (settleLine k) := fun _ hn => if_pos hn

theorem settleLine_beyond (k n : Nat) : settleLine k (n + Meta.beyond) = n + k := by
  have hge : ¬ n + Meta.beyond < Meta.beyond := by omega
  rw [settleLine, if_neg hge, Nat.add_sub_cancel]

theorem mapLine_settleLine_down (k : Nat) (p : Pos) : (p.down Meta.beyond).mapLine (settleLine k) = p.down k :=
  congrArg (Pos.mk · p.column) (settleLine_beyond k p.line)

/-- **Tokens further down** are read as the forms of the tokens beyond, settled. -/
theorem readEach_down (k : Nat) (ts : List Located) : readEach (ts.map (Located.down k)) =
    ((readEach (ts.map (Located.down Meta.beyond))).1.map (settle k),
      (readEach (ts.map (Located.down Meta.beyond))).2.map (Fault.mapLines (settleLine k))) := by
  have hdown : ts.map (Located.down k) = (ts.map (Located.down Meta.beyond)).map (Located.mapLine (settleLine k)) := by
    rw [List.map_map]
    refine List.map_congr_left fun t _ => ?_
    exact congrArg (Located.mk t.token) (mapLine_settleLine_down k t.pos).symm
  rw [hdown]
  exact readEach_mapLines (keepsWritten_settleLine k) _

theorem readEach_here (ts : List Located) : readEach ts =
    ((readEach (ts.map (Located.down Meta.beyond))).1.map (settle 0),
      (readEach (ts.map (Located.down Meta.beyond))).2.map (Fault.mapLines (settleLine 0))) := by
  have hhere : ts.map (Located.down 0) = ts := List.map_id ts
  have hdown := readEach_down 0 ts
  rwa [hhere] at hdown

theorem message_mapLines (σ : Nat → Nat) (cause : ReadError) : (cause.mapLines σ).message = cause.message := by
  cases cause with
  | duplicate key =>
    have hkey : (key.mapLines σ).render = key.render := by rw [← render_bare, bare_mapLines, render_bare]
    exact congrArg ("Duplicate key: " ++ ·) hkey
  | endOfInput | trailing | oddMap | badMetadata | badMetadataTarget | unmatched | unclosed => rfl

end Form

/-- The same kind of error with the same message, so many lines further down in the same column. -/
inductive SourceError.Below (k : Nat) : SourceError → SourceError → Prop
  | lex (cause : LexError) (p : Pos) : Below k (.lex ⟨cause, p⟩) (.lex ⟨cause, ⟨p.line + k, p.column⟩⟩)
  | read {cause cause' : ReadError} (p : Pos) (h : cause'.message = cause.message) :
      Below k (.read ⟨cause, p⟩) (.read ⟨cause', ⟨p.line + k, p.column⟩⟩)

namespace Form

open Token (Lexes)

variable {s t : String} {e : Located} {ts : List Located} {fs gs : List Form}

/-- A fault beyond is a fault here and the same fault further down. -/
theorem below_of_fault (k : Nat) (he : e.token = .eof) (hts : ∀ t ∈ ts, t.token ≠ .eof) {fault : Fault ReadError}
    (h : (readEach ((ts ++ [e]).map (Located.down Meta.beyond))).2 = some fault) :
    SourceError.Below k (.read (fault.mapLines (settleLine 0))) (.read (fault.mapLines (settleLine k))) := by
  have hne : ∀ t ∈ ts.map (Located.down Meta.beyond), t.token ≠ .eof := by
    intro t ht
    obtain ⟨u, hu, rfl⟩ := List.mem_map.mp ht
    exact hts u hu
  rw [List.map_append, List.map_singleton] at h
  have hlast : (e.down Meta.beyond).token = .eof := he
  obtain ⟨t, ht, hpos⟩ := pos_of_readEach hlast hne h
  rw [← List.map_singleton, ← List.map_append] at ht
  obtain ⟨u, -, rfl⟩ := List.mem_map.mp ht
  obtain ⟨cause, pos⟩ := fault
  obtain rfl : u.pos.down Meta.beyond = pos := hpos
  simp only [Fault.mapLines, mapLine_settleLine_down]
  exact .read u.pos ((message_mapLines _ cause).trans (message_mapLines _ cause).symm)

/-- **Reading is compatible with joining texts.**  A text that reads may be followed by another one on a new line.  If
that one reads too, the forms of both are read in order: those of the second stand further down by the lines of the
first, while lines that are written in metadata stay as they are.  If it does not read, the same error is reported, so
many lines further down. -/
theorem readAll_joined (h : readAll s = .ok fs) :
    (∀ gs, readAll t = .ok gs → ∃ hs, traced t = .ok hs ∧ gs = hs.map (settle 0) ∧
      readAll (s ++ "\n" ++ t) = .ok (fs ++ hs.map (settle (s.toList.count '\n' + 1)))) ∧
    ∀ e, readAll t = .error e → ∃ e', readAll (s ++ "\n" ++ t) = .error e' ∧
      SourceError.Below (s.toList.count '\n' + 1) e e' := by
  obtain ⟨ts, e, -, htokenize, hlexes, hrow⟩ := exists_tokens_of_readAll h
  obtain ⟨ls, e', -, -, hfirst, hjoined⟩ := Token.scanText_joined (t := t) hlexes
  obtain ⟨rfl, -⟩ := List.append_inj' (Except.ok.inj (htokenize.symm.trans hfirst)) rfl
  generalize s.toList.count '\n' + 1 = k at hjoined ⊢
  rcases hscan : Token.scanText t with ⟨us, fault⟩
  rw [hscan] at hjoined
  cases fault with
  | some fault =>
    -- the second text is misspelt
    have hsecond : readAll t = .error (.lex fault) := by
      rw [readAll, tokensOf, Token.tokenize, hscan]
      rfl
    have hboth : readAll (s ++ "\n" ++ t) = .error (.lex (fault.down k)) := by
      rw [readAll, tokensOf, Token.tokenize, hjoined]
      rfl
    rw [hsecond, hboth]
    refine ⟨fun gs hgs => (by cases hgs), fun e he => ⟨_, rfl, ?_⟩⟩
    obtain rfl := Except.error.inj he
    exact .lex fault.cause fault.pos
  | none =>
    have hsecond : Token.tokenize t = .ok us := by rw [Token.tokenize, hscan]
    have hboth : Token.tokenize (s ++ "\n" ++ t) = .ok (ts ++ us.map (Located.down k)) := by
      rw [Token.tokenize, hjoined]
      rfl
    rw [readAll_eq hsecond, readAll_eq hboth, hrow.pieces.readEach_append, readEach_down, readEach_here us]
    have htraced : traced t = match readEach (us.map (Located.down Meta.beyond)) with
        | (_, some fault) => .error (.read fault)
        | (forms, none) => .ok forms := by
      rw [traced, tokensOf_eq hsecond]
      rfl
    rw [htraced]
    obtain ⟨vs, e, rfl, he, hlexes'⟩ := Token.lexes_of_tokenize hsecond
    have hvs : ∀ v ∈ vs, v.token ≠ .eof := fun v hv => hlexes'.ne_eof _ (List.mem_map_of_mem hv)
    rcases hread : readEach ((vs ++ [e]).map (Located.down Meta.beyond)) with ⟨hs, fault⟩
    cases fault with
    | none =>
      refine ⟨fun gs hgs => ⟨hs, rfl, (Except.ok.inj hgs).symm, rfl⟩, fun e he => by cases he⟩
    | some fault =>
      refine ⟨fun gs hgs => (by cases hgs), fun e' he' => ⟨_, rfl, ?_⟩⟩
      obtain rfl := Except.error.inj he'
      exact below_of_fault k he hvs (by rw [hread])

/-- A comment ends where the texts are joined, and a written line stays. -/
theorem readAll_joined_comment :
    (∃ fs gs hs : List Form, readAll "[a\n b] ; c" = .ok fs ∧ readAll "x ^\x7b:line 7\x7d y" = .ok gs ∧
      gs.map line? = [some 1, some 7] ∧
      readAll ("[a\n b] ; c" ++ "\n" ++ "x ^\x7b:line 7\x7d y") = .ok (fs ++ hs.map (settle 2)) ∧
      (hs.map (settle 2)).map line? = [some 3, some 7]) ∧
    ∃ e e', readAll "x \x7d" = .error e ∧ e.pos = ⟨1, 3⟩ ∧
      readAll ("[a\n b] ; c" ++ "\n" ++ "x \x7d") = .error e' ∧ SourceError.Below 2 e e' := by
  have hfirst : (readAll "[a\n b] ; c").toOption.isSome := by decide +kernel
  have hsecond : (readAll "x ^\x7b:line 7\x7d y").toOption.any
      (fun gs => decide (gs.map line? = [some 1, some 7])) = true := by decide +kernel
  have hlines : (traced "x ^\x7b:line 7\x7d y").toOption.any
      (fun hs => decide ((hs.map (settle 2)).map line? = [some 3, some 7])) = true := by decide +kernel
  have herror : (match readAll "x \x7d" with | .ok _ => false | .error e => decide (e.pos = ⟨1, 3⟩)) = true := by
    decide +kernel
  cases hs : readAll "[a\n b] ; c" with
  | error e =>
    rw [hs] at hfirst
    cases hfirst
  | ok fs =>
    constructor
    · cases ht : readAll "x ^\x7b:line 7\x7d y" with
      | error e =>
        rw [ht] at hsecond
        cases hsecond
      | ok gs =>
        rw [ht] at hsecond
        obtain ⟨hs, htraced, -, hboth⟩ := (readAll_joined hs).1 gs ht
        rw [htraced] at hlines
        exact ⟨fs, gs, hs, rfl, rfl, of_decide_eq_true hsecond, hboth, of_decide_eq_true hlines⟩
    · cases ht : readAll "x \x7d" with
      | ok gs =>
        rw [ht] at herror
        cases herror
      | error e =>
        rw [ht] at herror
        obtain ⟨e', hboth, hbelow⟩ := (readAll_joined hs).2 e ht
        exact ⟨e, e', rfl, of_decide_eq_true herror, hboth, hbelow⟩

end Form

end LispMachine
