import Mathlib.Tactic.SplitIfs
import LispMachine.Token.Lexer
/-!
# The tokens of a text, without their places

The first character of a token decides how it is scanned (`scan_cons`).  `Lexes cs ts o` says that a text is cut
into these tokens, up to its end or up to a misspelt token.  Every text has exactly one such reading
(`exists_lexes`, `Lexes.unique`), and it is the one that `tokenize` finds (`tokenize_of_lexes`,
`lexes_of_tokenize`, `tokenize_of_fault`).  Places play no part in it, so a text means the same wherever it stands.
-/
namespace LispMachine.Token

variable {cs ds rest : List Char} {c : Char} {t : Token} {ts : List Token} {o : Option LexError}

/-- Names and words end at a blank, at a line break and at a closing bracket. -/
theorem not_part (h : c ∈ [' ', ',', '\n', ')', ']', '\x7d']) : isSymbolPart c = false ∧ isWordPart c = false := by
  have hall : [' ', ',', '\n', ')', ']', '\x7d'].all (fun c => !isSymbolPart c && !isWordPart c) = true := by
    decide +kernel
  simpa using List.all_eq_true.mp hall c h

/-! ## Starts of tokens -/

/-- What the first character of a token says about it. -/
inductive Start where
  | mark (t : Token)
  | hash
  | string
  | char
  | keyword
  | sign
  | digit
  | name
  | none

/-- The scanner for a start. -/
def Start.scan (c : Char) (cs : List Char) : Start → Scanned
  | .mark t => .ok (t, cs)
  | .hash => scanHash cs
  | .string => scanString [] cs
  | .char => scanChar cs
  | .keyword => scanKeyword cs
  | .sign => if startsWithDigit cs then scanNumber (c = '-') cs else .ok (scanSymbol (c :: cs))
  | .digit => scanNumber false (c :: cs)
  | .name => .ok (scanSymbol (c :: cs))
  | .none => .error { cause := .unexpected c }

def startOf (c : Char) : Start :=
  if c = '(' then .mark .openParen
  else if c = ')' then .mark .closeParen
  else if c = '[' then .mark .openBracket
  else if c = ']' then .mark .closeBracket
  else if c = '\x7b' then .mark .openBrace
  else if c = '\x7d' then .mark .closeBrace
  else if c = '\x27' then .mark .quote
  else if c = '^' then .mark .caret
  else if c = '#' then .hash
  else if c = '"' then .string
  else if c = '\\' then .char
  else if c = ':' then .keyword
  else if c = '-' || c = '+' then .sign
  else if c.isDigit then .digit
  else if isSymbolStart c then .name
  else .none

theorem Start.scan_ite {p : Prop} [Decidable p] {x y : Scanned} {s s' : Start} (h : x = s.scan c cs)
    (h' : y = s'.scan c cs) : (if p then x else y) = (if p then s else s').scan c cs := by
  rw [apply_ite (Start.scan c cs), h, h']

/-- **The first character decides how a token is scanned.** -/
theorem scan_cons (c : Char) (cs : List Char) : scan (c :: cs) = (startOf c).scan c cs := by
  unfold scan startOf
  repeat' apply Start.scan_ite
  all_goals rfl

/-- A bracket, or a mark that is written with one character. -/
def isMark : Token → Bool
  | .openParen | .closeParen | .openBracket | .closeBracket | .openBrace | .closeBrace | .quote | .caret => true
  | _ => false

/-- What a start says about the character, and about the token if it is one character long. -/
def Start.Fits (c : Char) : Start → Prop
  | .mark t => t.isMark = true
  | .sign => c = '-' ∨ c = '+'
  | .digit => c.isDigit = true
  | .name => isSymbolStart c = true ∧ c.isDigit = false
  | _ => True

theorem Start.fits_ite {p : Prop} [Decidable p] {s s' : Start} (h : p → s.Fits c) (h' : ¬ p → s'.Fits c) :
    (if p then s else s').Fits c := by
  split
  · exact h ‹_›
  · exact h' ‹_›

theorem fits_startOf (c : Char) : (startOf c).Fits c := by
  unfold startOf
  iterate 8 refine Start.fits_ite (fun _ => rfl) fun _ => ?_
  iterate 4 refine Start.fits_ite (fun _ => trivial) fun _ => ?_
  refine Start.fits_ite (fun h => by simpa [Start.Fits] using h) fun _ => ?_
  refine Start.fits_ite id fun hd => ?_
  exact Start.fits_ite (fun h => ⟨h, by simpa using hd⟩) fun _ => trivial

theorem isMark_ne_eof (h : t.isMark = true) : t ≠ .eof := by
  rintro rfl
  cases h

/-! ## What a scanner leaves -/

/-- The result of a scanner is a token of the text, and what it leaves is the end of the text. -/
def Leaves (x : Scanned) (cs : List Char) : Prop := ∀ t rest, x = .ok (t, rest) → t ≠ .eof ∧ rest <:+ cs

theorem Leaves.ok (ht : t ≠ .eof) (h : rest <:+ cs) : Leaves (.ok (t, rest)) cs := by
  intro u rest' he
  obtain ⟨rfl, rfl⟩ := Prod.mk.inj (Except.ok.inj he)
  exact ⟨ht, h⟩

theorem Leaves.error (e : ScanError) (cs : List Char) : Leaves (.error e) cs := fun _ _ h => nomatch h

theorem Leaves.mono {x : Scanned} {ds : List Char} (h : Leaves x cs) (hsuf : cs <:+ ds) : Leaves x ds :=
  fun t rest he => ⟨(h t rest he).1, (h t rest he).2.trans hsuf⟩

theorem leaves_scanString (acc cs : List Char) : Leaves (scanString acc cs) cs := by
  fun_induction scanString acc cs with
  | case1 | case3 | case9 => exact .error _ _
  | case2 acc rest => exact .ok Token.noConfusion (List.suffix_cons _ _)
  | case4 acc rest ih | case5 acc rest ih | case6 acc rest ih | case7 acc rest ih | case8 acc rest ih =>
    exact ih.mono ((List.suffix_cons _ _).trans (List.suffix_cons _ _))
  | case10 acc c rest _ _ _ ih => exact ih.mono (List.suffix_cons _ _)

theorem leaves_scanHash (cs : List Char) : Leaves (scanHash cs) cs := by
  unfold scanHash
  split
  · exact .error _ _
  · split_ifs
    · exact .ok Token.noConfusion (List.suffix_cons _ _)
    · exact .ok Token.noConfusion (List.suffix_cons _ _)
    · exact .ok Token.noConfusion (List.suffix_cons _ _)
    · exact .error _ _

theorem leaves_scanChar (cs : List Char) : Leaves (scanChar cs) cs := by
  unfold scanChar
  cases cs with
  | nil =>
    dsimp only
    split
    · exact .ok Token.noConfusion List.suffix_rfl
    · exact .error _ _
  | cons c cs =>
    dsimp only
    split
    · exact .ok Token.noConfusion ((List.dropWhile_suffix _).trans (List.suffix_cons _ _))
    · exact .error _ _

theorem leaves_scanKeyword (cs : List Char) : Leaves (scanKeyword cs) cs := by
  unfold scanKeyword
  dsimp only
  split
  · exact .error _ _
  · exact .ok Token.noConfusion (List.dropWhile_suffix _)

theorem ofName_ne_eof (name : String) : ofName name ≠ .eof := by
  unfold ofName
  split <;> exact Token.noConfusion

theorem isSymbolPart_of_start (h : isSymbolStart c = true) : isSymbolPart c = true := by
  rw [isSymbolPart, h]
  rfl

theorem leaves_scanSymbol (h : isSymbolPart c = true) (cs : List Char) : Leaves (.ok (scanSymbol (c :: cs))) cs := by
  unfold scanSymbol
  rw [List.dropWhile_cons_of_pos h]
  exact .ok (ofName_ne_eof _) (List.dropWhile_suffix _)

theorem spanNumeral_suffix (seen : Bool) (cs : List Char) : (spanNumeral seen cs).rest <:+ cs := by
  fun_induction spanNumeral seen cs with
  | case1 => exact List.suffix_rfl
  | case2 _ _ _ _ ih | case3 _ _ _ _ _ ih | case6 _ _ _ _ _ _ _ _ ih => exact ih.trans (List.suffix_cons _ _)
  | case4 _ _ _ _ _ _ ih | case5 _ _ _ _ _ _ ih => exact ih.trans ((List.suffix_cons _ _).trans (List.suffix_cons _ _))
  | case7 => exact List.suffix_cons _ _
  | case8 => exact List.suffix_rfl

theorem leaves_scanNumber (negative : Bool) (cs : List Char) :
    Leaves (scanNumber negative cs) (spanNumeral false cs).rest := by
  unfold scanNumber
  generalize spanNumeral false cs = n
  dsimp only
  generalize (if negative then '-' :: n.text else n.text) = text
  split
  · exact .error _ _
  · split
    · split
      · exact .ok Token.noConfusion List.suffix_rfl
      · exact .error _ _
    · split
      · exact .ok Token.noConfusion List.suffix_rfl
      · exact .error _ _

theorem spanNumeral_digit (h : c.isDigit = true) (seen : Bool) (cs : List Char) :
    spanNumeral seen (c :: cs) = (spanNumeral seen cs).cons c := by
  conv => lhs; unfold spanNumeral
  exact if_pos h

/-- Each token takes at least one character. -/
theorem leaves_scan (c : Char) (cs : List Char) : Leaves (scan (c :: cs)) cs := by
  rw [scan_cons]
  have hfits := fits_startOf c
  generalize startOf c = start at hfits ⊢
  cases start with
  | mark t => exact .ok (isMark_ne_eof hfits) List.suffix_rfl
  | hash => exact leaves_scanHash cs
  | string => exact leaves_scanString [] cs
  | char => exact leaves_scanChar cs
  | keyword => exact leaves_scanKeyword cs
  | sign =>
    dsimp only [Start.scan]
    split
    · exact (leaves_scanNumber _ cs).mono (spanNumeral_suffix false cs)
    · apply leaves_scanSymbol
      rcases hfits with rfl | rfl <;> decide
  | digit =>
    have h := leaves_scanNumber false (c :: cs)
    rw [spanNumeral_digit hfits] at h
    exact h.mono (spanNumeral_suffix false cs)
  | name => exact leaves_scanSymbol (isSymbolPart_of_start hfits.1) cs
  | none => exact .error _ _

theorem scan_suffix (h : scan cs = .ok (t, rest)) : rest <:+ cs := by
  cases cs with
  | nil =>
    obtain ⟨-, rfl⟩ := Prod.mk.inj (Except.ok.inj h)
    exact List.suffix_rfl
  | cons c cs => exact ((leaves_scan c cs t rest h).2).trans (List.suffix_cons c cs)

/-! ## Heads -/

/-- A character that starts a token. -/
def Solid (c : Char) : Prop := Text.isBlank c = false ∧ c ≠ ',' ∧ c ≠ ';'

instance (c : Char) : Decidable (Solid c) := inferInstanceAs (Decidable (_ ∧ _))

theorem skipBlanks_solid (h : Solid c) (cs : List Char) : skipBlanks (c :: cs) = c :: cs := by
  rw [skipBlanks, if_neg (by simp [h.1, h.2.1]), if_neg h.2.2]

theorem skipBlanks_cons (h : skipBlanks cs = c :: ds) : Solid c := by
  fun_induction skipBlanks cs with
  | case1 => cases h
  | case2 _ _ _ ih => exact ih h
  | case3 _ _ ih => exact ih h
  | case4 a cs hblank hcomment =>
    obtain ⟨rfl, -⟩ := List.cons.inj h
    simp only [Bool.or_eq_true, decide_eq_true_eq, not_or, Bool.not_eq_true] at hblank
    exact ⟨hblank.1, hblank.2, hcomment⟩

theorem skipComment_suffix : ∀ cs : List Char, skipComment cs <:+ cs
  | [] => List.suffix_rfl
  | c :: cs => by
    rw [skipComment]
    split
    · exact List.suffix_cons _ _
    · exact (skipComment_suffix cs).trans (List.suffix_cons _ _)

theorem skipBlanks_suffix (cs : List Char) : skipBlanks cs <:+ cs := by
  fun_induction skipBlanks cs with
  | case1 => exact List.suffix_rfl
  | case2 c cs _ ih => exact ih.trans (List.suffix_cons _ _)
  | case3 cs _ ih => exact ih.trans ((skipComment_suffix cs).trans (List.suffix_cons _ _))
  | case4 => exact List.suffix_rfl

/-! ## Whole texts -/

/-- The tokens of a text, and the fault behind them if the text is not cut to its end. -/
inductive Lexes : List Char → List Token → Option LexError → Prop
  | done {cs : List Char} (h : skipBlanks cs = []) : Lexes cs [] none
  | fault {cs : List Char} {e : ScanError} (h : scan (skipBlanks cs) = .error e) : Lexes cs [] (some e.cause)
  | token {cs rest : List Char} {t : Token} {ts : List Token} {o : Option LexError}
      (h : scan (skipBlanks cs) = .ok (t, rest)) (ht : t ≠ .eof) (tail : Lexes rest ts o) : Lexes cs (t :: ts) o

/-- Blanks and comments at the head make no difference. -/
theorem Lexes.skip (h : Lexes cs ts o) (hs : skipBlanks ds = skipBlanks cs) : Lexes ds ts o := by
  cases h with
  | done h => exact .done (hs.trans h)
  | fault h => exact .fault (hs ▸ h)
  | token h ht tail => exact .token (hs ▸ h) ht tail

theorem length_lt_of_scan (h : scan (skipBlanks cs) = .ok (t, rest)) (ht : t ≠ .eof) : rest.length < cs.length := by
  have hlen := (skipBlanks_suffix cs).length_le
  cases hs : skipBlanks cs with
  | nil =>
    rw [hs] at h
    obtain ⟨rfl, -⟩ := Prod.mk.inj (Except.ok.inj h)
    exact absurd rfl ht
  | cons c ds =>
    rw [hs] at h hlen
    have := (leaves_scan c ds t rest h).2.length_le
    simp only [List.length_cons] at hlen
    omega

/-- A text is cut in one way only. -/
theorem Lexes.unique (h : Lexes cs ts o) : ∀ {us o'}, Lexes cs us o' → us = ts ∧ o' = o := by
  induction h with
  | done h =>
    intro us o' hu
    cases hu with
    | done => exact ⟨rfl, rfl⟩
    | fault h' =>
      rw [h] at h'
      cases h'
    | token h' ht _ =>
      rw [h] at h'
      obtain ⟨rfl, -⟩ := Prod.mk.inj (Except.ok.inj h')
      exact absurd rfl ht
  | fault h =>
    intro us o' hu
    cases hu with
    | done h' =>
      rw [h'] at h
      cases h
    | fault h' =>
      rw [h] at h'
      obtain rfl := Except.error.inj h'
      exact ⟨rfl, rfl⟩
    | token h' _ _ =>
      rw [h] at h'
      cases h'
  | token h ht _ ih =>
    intro us o' hu
    cases hu with
    | done h' =>
      rw [h'] at h
      obtain ⟨rfl, -⟩ := Prod.mk.inj (Except.ok.inj h)
      exact absurd rfl ht
    | fault h' =>
      rw [h] at h'
      cases h'
    | token h' _ tail' =>
      rw [h] at h'
      obtain ⟨rfl, rfl⟩ := Prod.mk.inj (Except.ok.inj h')
      obtain ⟨rfl, rfl⟩ := ih tail'
      exact ⟨rfl, rfl⟩

/-- **Every text is cut into tokens** up to its end or a fault. -/
theorem exists_lexes (cs : List Char) : ∃ ts o, Lexes cs ts o := by
  induction hn : cs.length using Nat.strongRecOn generalizing cs with
  | ind n ih =>
    cases hs : skipBlanks cs with
    | nil => exact ⟨_, _, .done hs⟩
    | cons c ds =>
      cases h : scan (c :: ds) with
      | error e => exact ⟨_, _, .fault (hs ▸ h)⟩
      | ok p =>
        obtain ⟨t, rest⟩ := p
        have ht := (leaves_scan c ds t rest h).1
        rw [← hs] at h
        obtain ⟨ts, o, tail⟩ := ih rest.length (hn ▸ length_lt_of_scan h ht) rest rfl
        exact ⟨_, _, .token h ht tail⟩

/-- The scan of a text goes through its tokens. -/
theorem Lexes.scanAll (h : Lexes cs ts o) : ∀ {n} (pos : Pos), cs.length < n →
    ∃ ls : List Located, ls.map (·.token) = ts ∧ match o with
    | none => ∃ e : Located, e.token = .eof ∧ Token.scanAll n pos cs = (ls ++ [e], none)
    | some cause => ∃ p, Token.scanAll n pos cs = (ls, some ⟨cause, p⟩) := by
  induction h with
  | @done cs h =>
    intro n pos hn
    obtain ⟨n, rfl⟩ : ∃ m, n = m + 1 := ⟨n - 1, by omega⟩
    refine ⟨[], rfl, ⟨.eof, pos.after (passed cs (skipBlanks cs))⟩, rfl, ?_⟩
    rw [Token.scanAll]
    simp only [h]
    rfl
  | fault h =>
    intro n pos hn
    obtain ⟨n, rfl⟩ : ∃ m, n = m + 1 := ⟨n - 1, by omega⟩
    refine ⟨[], rfl, ?_⟩
    rw [Token.scanAll]
    simp only [h]
    exact ⟨_, rfl⟩
  | @token cs rest t ts o h ht tail ih =>
    intro n pos hn
    obtain ⟨n, rfl⟩ : ∃ m, n = m + 1 := ⟨n - 1, by omega⟩
    have hlt := length_lt_of_scan h ht
    obtain ⟨ls, hls, hrest⟩ := @ih n ((pos.after (passed cs (skipBlanks cs))).after (passed (skipBlanks cs) rest)) (by omega)
    have hstep : Token.scanAll (n + 1) pos cs =
        (⟨t, pos.after (passed cs (skipBlanks cs))⟩ ::
            (Token.scanAll n ((pos.after (passed cs (skipBlanks cs))).after (passed (skipBlanks cs) rest)) rest).1,
          (Token.scanAll n ((pos.after (passed cs (skipBlanks cs))).after (passed (skipBlanks cs) rest)) rest).2) := by
      rw [Token.scanAll]
      simp only [h]
    refine ⟨⟨t, pos.after (passed cs (skipBlanks cs))⟩ :: ls, by simp [hls], ?_⟩
    rw [hstep]
    cases o with
    | none =>
      obtain ⟨e, he, hall⟩ := hrest
      exact ⟨e, he, by rw [hall]; rfl⟩
    | some cause =>
      obtain ⟨p, hall⟩ := hrest
      exact ⟨p, by rw [hall]⟩

variable {s : String}

theorem tokenize_of_lexes (h : Lexes s.toList ts none) : ∃ (ls : List Located) (e : Located),
    ls.map (·.token) = ts ∧ e.token = .eof ∧ tokenize s = .ok (ls ++ [e]) := by
  obtain ⟨ls, hls, e, he, hall⟩ := h.scanAll .start (Nat.lt_succ_self _)
  refine ⟨ls, e, hls, he, ?_⟩
  simp only [tokenize, scanText, hall]

theorem tokenize_of_fault {cause : LexError} (h : Lexes s.toList ts (some cause)) :
    ∃ p, tokenize s = .error ⟨cause, p⟩ := by
  obtain ⟨ls, hls, p, hall⟩ := h.scanAll .start (Nat.lt_succ_self _)
  refine ⟨p, ?_⟩
  simp only [tokenize, scanText, hall]

theorem Lexes.ne_eof (h : Lexes cs ts o) : ∀ t ∈ ts, t ≠ .eof := by
  induction h with
  | done | fault =>
    intro _ ht
    cases ht
  | token h ht _ ih => exact List.forall_mem_cons.mpr ⟨ht, ih⟩

/-- **The tokens that are found** are those of the text, with a mark for its end. -/
theorem lexes_of_tokenize {all : List Located} (h : tokenize s = .ok all) : ∃ (ls : List Located) (e : Located),
    all = ls ++ [e] ∧ e.token = .eof ∧ Lexes s.toList (ls.map (·.token)) none := by
  obtain ⟨ts, o, hts⟩ := exists_lexes s.toList
  cases o with
  | none =>
    obtain ⟨ls, e, rfl, he, hall⟩ := tokenize_of_lexes hts
    rw [hall] at h
    exact ⟨ls, e, (Except.ok.inj h).symm, he, hts⟩
  | some cause =>
    obtain ⟨p, hp⟩ := tokenize_of_fault hts
    rw [hp] at h
    cases h

end LispMachine.Token
