import LispMachine.Proofs.Token.Lines
/-!
# Where tokens stand

A text that starts further down has the same tokens, each of them as many lines further down (`scanAll_down`).
Behind a text that is cut to its end, and a line break, a second text is cut as by itself: the tokens of the first
text stand where they stood, those of the second are further down by the lines of the first
(`scanText_joined`).  The same goes for the fault of a text that is not cut to its end.
-/
namespace LispMachine

/-! ## Lines of places -/

/-- The place with another line. -/
def Pos.mapLine (σ : Nat → Nat) (p : Pos) : Pos := ⟨σ p.line, p.column⟩

/-- The place so many lines further down. -/
def Pos.down (k : Nat) : Pos → Pos := mapLine (· + k)

def Located.mapLine (σ : Nat → Nat) (t : Located) : Located := ⟨t.token, t.pos.mapLine σ⟩

def Located.down (k : Nat) : Located → Located := mapLine (· + k)

def Fault.down {ε : Type} (k : Nat) (fault : Fault ε) : Fault ε := ⟨fault.cause, fault.pos.down k⟩

namespace Pos

theorem next_down (k : Nat) (p : Pos) (c : Char) : (p.down k).next c = (p.next c).down k := by
  unfold next
  split
  · simp only [down, mapLine, Nat.add_right_comm]
  · rfl

theorem after_down (k : Nat) (p : Pos) (cs : List Char) : (p.down k).after cs = (p.after cs).down k := by
  induction cs generalizing p with
  | nil => rfl
  | cons c cs ih =>
    have := ih (p.next c)
    rwa [← next_down] at this

theorem after_append (p : Pos) (cs ds : List Char) : p.after (cs ++ ds) = (p.after cs).after ds :=
  List.foldl_append

theorem line_after (p : Pos) (cs : List Char) : (p.after cs).line = p.line + cs.count '\n' := by
  induction cs generalizing p with
  | nil => rfl
  | cons c cs ih =>
    have hcs := ih (p.next c)
    by_cases hc : c = '\n'
    · have hnext : (p.next c).line = p.line + 1 := by simp [next, hc]
      rw [hnext] at hcs
      rw [hc] at hcs ⊢
      rw [List.count_cons_self]
      exact hcs.trans (by omega)
    · have hnext : (p.next c).line = p.line := by simp [next, hc]
      rw [hnext] at hcs
      rwa [List.count_cons_of_ne hc]

/-- A new line starts behind a line break, as many lines down as there are breaks. -/
theorem next_break_after (cs : List Char) : (start.after cs).next '\n' = start.down (cs.count '\n' + 1) := by
  have hline := line_after start cs
  have hnext : (start.after cs).next '\n' = ⟨(start.after cs).line + 1, 1⟩ := rfl
  rw [hnext, hline, down, mapLine, Nat.add_assoc]
  rfl

end Pos

namespace Token

variable {P Q T cs ds rest : List Char} {ts : List Token} {s t : String} {n m : Nat}

/-! ## What was passed -/

theorem passed_append (h : T <:+ P) (Q : List Char) : passed (P ++ Q) (T ++ Q) = passed P T := by
  have hle := h.length_le
  have hlen : (P ++ Q).length - (T ++ Q).length = P.length - T.length := by simp only [List.length_append]; omega
  rw [passed, hlen, List.take_append_of_le_length (by omega), passed]

theorem passed_trans (h : T <:+ Q) (P : List Char) : passed (P ++ Q) T = P ++ passed Q T := by
  have hle := h.length_le
  have hlen : (P ++ Q).length - T.length = P.length + (Q.length - T.length) := by
    simp only [List.length_append]; omega
  rw [passed, hlen, List.take_length_add_append, passed]

theorem passed_append_self (h : T <:+ P) : passed P T ++ T = P := by
  obtain ⟨A, rfl⟩ := h
  simp [passed]

/-! ## One step of the scan -/

/-- The scan looks only at what is behind the blanks, and at the place where that stands. -/
theorem scanAll_skip (n : Nat) (pos : Pos) (h : skipBlanks (P ++ Q) = skipBlanks Q) :
    scanAll n pos (P ++ Q) = scanAll n (pos.after P) Q := by
  cases n with
  | zero => rfl
  | succ n =>
    rw [scanAll, scanAll, h, passed_trans (skipBlanks_suffix Q), Pos.after_append]

/-- A bound that is large enough makes no difference. -/
theorem scanAll_bound (pos : Pos) (hn : cs.length < n) (hm : cs.length < m) :
    scanAll n pos cs = scanAll m pos cs := by
  induction n generalizing m pos cs with
  | zero => exact absurd hn (Nat.not_lt_zero _)
  | succ n ih =>
    obtain ⟨m, rfl⟩ : ∃ l, m = l + 1 := ⟨m - 1, by omega⟩
    rw [scanAll, scanAll]
    cases hscan : scan (skipBlanks cs) with
    | error e => rfl
    | ok p =>
      obtain ⟨t, rest⟩ := p
      by_cases ht : t = .eof
      · subst ht
        rfl
      · have hlt := length_lt_of_scan hscan ht
        simp only [ih ((pos.after (passed cs (skipBlanks cs))).after (passed (skipBlanks cs) rest))
          (by omega : rest.length < n) (by omega : rest.length < m)]

/-- **A text that starts further down** has the same tokens, so many lines further down. -/
theorem scanAll_down (k n : Nat) (pos : Pos) (cs : List Char) : scanAll n (pos.down k) cs =
    ((scanAll n pos cs).1.map (Located.down k), (scanAll n pos cs).2.map (Fault.down k)) := by
  induction n generalizing pos cs with
  | zero => rfl
  | succ n ih =>
    rw [scanAll, scanAll]
    simp only [Pos.after_down]
    cases scan (skipBlanks cs) with
    | error e =>
      obtain ⟨cause, noticed⟩ := e
      cases noticed <;> rfl
    | ok p =>
      obtain ⟨t, rest⟩ := p
      have hrest := ih ((pos.after (passed cs (skipBlanks cs))).after (passed (skipBlanks cs) rest)) rest
      by_cases ht : t = .eof
      · subst ht
        rfl
      · simp only [hrest]
        cases t <;> rfl

/-! ## Joined texts -/

/-- **Behind a text that is cut to its end and a line break**, the scan goes on as at the start of the line. -/
theorem Lexes.scanAll_append (h : Lexes P ts none) (hQ : Q.head? = some '\n') : ∀ {n} (pos : Pos),
    (P ++ Q).length < n → ∃ (ls : List Located) (e : Located), ls.map (·.token) = ts ∧ e.token = .eof ∧
      Token.scanAll n pos P = (ls ++ [e], none) ∧ Token.scanAll n pos (P ++ Q) =
        (ls ++ (Token.scanAll n (pos.after P) Q).1, (Token.scanAll n (pos.after P) Q).2) := by
  generalize ho : none = o at h
  induction h with
  | @done cs hdone =>
    intro n pos hn
    have hskip : skipBlanks (cs ++ Q) = skipBlanks Q := by
      rcases skipBlanks_append (.inr (.inr hQ) : cs = [] ∨ Broken cs Q) with ⟨-, heq⟩ | ⟨hne, -⟩
      · exact heq
      · exact absurd hdone hne
    have hlen : cs.length < n := by
      simp only [List.length_append] at hn
      omega
    obtain ⟨ls, hls, e, he, hall⟩ := (Lexes.done hdone).scanAll pos hlen
    obtain rfl := List.map_eq_nil_iff.mp hls
    exact ⟨[], e, rfl, he, hall, by rw [scanAll_skip n pos hskip]; rfl⟩
  | fault => cases ho
  | @token cs rest t ts o' hscan ht tail ih =>
    intro n pos hn
    have hne : skipBlanks cs ≠ [] := by
      intro hnil
      rw [hnil] at hscan
      obtain ⟨rfl, -⟩ := Prod.mk.inj (Except.ok.inj hscan)
      exact absurd rfl ht
    have hskip : skipBlanks (cs ++ Q) = skipBlanks cs ++ Q := by
      rcases skipBlanks_append (.inr (.inr hQ) : cs = [] ∨ Broken cs Q) with ⟨hnil, -⟩ | ⟨-, heq⟩
      · exact absurd hnil hne
      · exact heq
    have hlt := length_lt_of_scan hscan ht
    simp only [List.length_append] at hn ih
    obtain ⟨n, rfl⟩ : ∃ l, n = l + 1 := ⟨n - 1, by omega⟩
    have hall := passed_append_self (scan_suffix hscan)
    have hstart := passed_append_self (skipBlanks_suffix cs)
    have hend : ((pos.after (passed cs (skipBlanks cs))).after (passed (skipBlanks cs) rest)).after rest =
        pos.after cs := by
      rw [← Pos.after_append, ← Pos.after_append, hall, hstart]
    obtain ⟨ls, e, hls, he, hfirst, hboth⟩ := ih ho
      ((pos.after (passed cs (skipBlanks cs))).after (passed (skipBlanks cs) rest)) (by omega : _ < n)
    refine ⟨⟨t, pos.after (passed cs (skipBlanks cs))⟩ :: ls, e, by simp [hls], he, ?_, ?_⟩
    · rw [Token.scanAll]
      simp only [hscan, hfirst]
      rfl
    · have hrest := scanAll_bound (pos.after cs) (by omega : Q.length < n) (by omega : Q.length < n + 1)
      rw [hend, hrest] at hboth
      rw [Token.scanAll]
      simp only [hskip, scan_append hQ hne hscan, passed_append (skipBlanks_suffix cs),
        passed_append (scan_suffix hscan), hboth]
      rfl

/-- **Joined texts.**  The tokens of a text stand where they stood when another text follows on a new line, and those
of the other text are further down by the lines of the first, as is its fault. -/
theorem scanText_joined (h : Lexes s.toList ts none) : ∃ (ls : List Located) (e : Located),
    ls.map (·.token) = ts ∧ e.token = .eof ∧ tokenize s = .ok (ls ++ [e]) ∧ scanText (s ++ "\n" ++ t) =
      (ls ++ (scanText t).1.map (Located.down (s.toList.count '\n' + 1)),
        (scanText t).2.map (Fault.down (s.toList.count '\n' + 1))) := by
  have hchars : (s ++ "\n" ++ t).toList = s.toList ++ '\n' :: t.toList := by simp
  obtain ⟨ls, e, hls, he, hfirst, hboth⟩ := h.scanAll_append (Q := '\n' :: t.toList) rfl .start
    (n := (s.toList ++ '\n' :: t.toList).length + 1) (Nat.lt_succ_self _)
  have htext : tokenize s = .ok (ls ++ [e]) := by
    rw [tokenize, scanText, scanAll_bound .start (Nat.lt_succ_self _) (m := (s.toList ++ '\n' :: t.toList).length + 1)
      (by simp only [List.length_append]; omega), hfirst]
  have hbreak : skipBlanks (['\n'] ++ t.toList) = skipBlanks t.toList := by
    rw [List.singleton_append, skipBlanks, if_pos (by decide)]
  have hbelow : Token.scanAll ((s.toList ++ '\n' :: t.toList).length + 1) (Pos.start.after s.toList)
      ('\n' :: t.toList) = ((scanText t).1.map (Located.down (s.toList.count '\n' + 1)),
        (scanText t).2.map (Fault.down (s.toList.count '\n' + 1))) := by
    have hline : (Pos.start.after s.toList).after ['\n'] = Pos.start.down (s.toList.count '\n' + 1) :=
      Pos.next_break_after s.toList
    rw [← List.singleton_append, scanAll_skip _ _ hbreak, hline, scanAll_down, scanText,
      scanAll_bound .start (m := t.toList.length + 1)]
    · simp only [List.length_append, List.length_cons]
      omega
    · exact Nat.lt_succ_self _
  exact ⟨ls, e, hls, he, htext, by rw [scanText, hchars, hboth, hbelow]⟩

end Token

end LispMachine
