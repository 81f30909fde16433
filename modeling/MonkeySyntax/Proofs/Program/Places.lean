import MonkeySyntax.Proofs.Program.FirstError

/-!
# MonkeySyntax — the tokens that diagnostics are on

Every diagnostic on a program is on one of its tokens. This module numbers these tokens, so that the
diagnostics on two programs can be compared token by token.

* **`Parser.Located offset parser found`** — the diagnostics of the turns from here on, each with
  the number of its token, where the current token has the number `offset`.
* **`Turns.exists_located`**, **`Located.unique`** — there is one such list, and its diagnostics are
  those of the turns.
* **`Located.names`** — a diagnostic is on the token with its number, and its cause is true of it.
* **`Moved.located`** — where tokens are moved, the numbers stay as they are.
* **`Diagnostic.IsOn source k diagnostic`** — on a source, a diagnostic stands where the token `k`
  starts, and no other token starts there.
-/

namespace MonkeySyntax

open Grammar MonkeySyntax.Parser

namespace Parser

/-- The diagnostics of the turns from the token number `offset` on, with the numbers of their
tokens. -/
inductive Located : (offset : Nat) → Parser → List (Nat × Diagnostic) → Prop where
  | done {offset : Nat} {parser : Parser} (hend : parser.atEnd = true) : Located offset parser []
  | read {offset : Nat} {parser later : Parser} {tree : Stmt} {tokens : List Token}
      {found : List (Nat × Diagnostic)} (hend : parser.atEnd = false)
      (hturn : parser.turn = (.ok tree, later)) (hsplit : parser.ahead = tokens ++ later.ahead)
      (hmore : Located (offset + tokens.length) later found) : Located offset parser found
  | broken {offset : Nat} {parser mid later : Parser} {diagnostic : Diagnostic}
      {tokens : List Token} {found : List (Nat × Diagnostic)} (hend : parser.atEnd = false)
      (hrule : unbounded.statementRule parser = .error diagnostic mid)
      (hturn : parser.turn = (.error diagnostic, later))
      (hsplit : parser.ahead = tokens ++ later.ahead)
      (hmore : Located (offset + tokens.length) later found) :
      Located offset parser ((offset + parser.brokenAt diagnostic mid, diagnostic) :: found)

variable {place : Position → Position} {parser other later : Parser} {segments : List Segment}
  {offset : Nat} {found others : List (Nat × Diagnostic)}

/-- The diagnostics of turns have numbers. -/
theorem Turns.exists_located (h : parser.Turns segments) (offset : Nat) :
    ∃ found, parser.Located offset found ∧
      found.map Prod.snd = segments.filterMap Segment.diagnostic? := by
  induction h generalizing offset with
  | done hend => exact ⟨[], .done hend, rfl⟩
  | @next parser later tokens outcome segments hend hturn hsplit _ ih =>
    obtain ⟨found, hmore, hdiagnostics⟩ := ih (offset + tokens.length)
    cases outcome with
    | ok tree => exact ⟨found, .read hend hturn hsplit hmore, hdiagnostics⟩
    | error diagnostic =>
      obtain ⟨mid, hrule, -⟩ := turn_of_error hturn
      exact ⟨_, .broken hend hrule hturn hsplit hmore,
        congrArg (diagnostic :: ·) hdiagnostics⟩

namespace Located

/-- The tokens of the diagnostics are determined. -/
theorem unique (h : parser.Located offset found) (h' : parser.Located offset others) :
    others = found := by
  induction h generalizing others with
  | done hend =>
    cases h' with
    | done => rfl
    | read hend' | broken hend' => exact absurd (hend'.symm.trans hend) Bool.false_ne_true
  | read hend hturn hsplit _ ih =>
    cases h' with
    | done hend' => exact absurd (hend.symm.trans hend') Bool.false_ne_true
    | read _ hturn' hsplit' hmore' =>
      rw [hturn] at hturn'
      cases hturn'
      obtain rfl := List.append_cancel_right (hsplit.symm.trans hsplit')
      exact ih hmore'
    | broken _ _ hturn' =>
      rw [hturn] at hturn'
      cases hturn'
  | broken hend hrule hturn hsplit _ ih =>
    cases h' with
    | done hend' => exact absurd (hend.symm.trans hend') Bool.false_ne_true
    | read _ hturn' =>
      rw [hturn] at hturn'
      cases hturn'
    | broken _ hrule' hturn' hsplit' hmore' =>
      rw [hrule] at hrule'
      cases hrule'
      rw [hturn] at hturn'
      cases hturn'
      obtain rfl := List.append_cancel_right (hsplit.symm.trans hsplit')
      rw [ih hmore']

/-- **A diagnostic is on the token with its number,** and its cause is true of it. -/
theorem names (h : parser.Located offset found)
    (hends : ∀ token ∈ parser.ahead, token.kind ≠ .eof) :
    ∀ entry ∈ found, ∃ k token, entry.1 = offset + k ∧
      (parser.ahead ++ [parser.endToken])[k]? = some token ∧ entry.2.Names token := by
  -- what is said of the tokens behind a turn holds of those in front, further on
  have hbehind : ∀ {parser later : Parser} {tokens : List Token} {offset : Nat}
      {entry : Nat × Diagnostic}, parser.ahead = tokens ++ later.ahead → later = parser.turn.2 →
      (∃ k token, entry.1 = offset + tokens.length + k ∧
        (later.ahead ++ [later.endToken])[k]? = some token ∧ entry.2.Names token) →
      ∃ k token, entry.1 = offset + k ∧
        (parser.ahead ++ [parser.endToken])[k]? = some token ∧ entry.2.Names token := by
    rintro parser later tokens offset entry hsplit rfl ⟨k, token, hnumber, htoken, hnames⟩
    refine ⟨tokens.length + k, token, by rw [hnumber, Nat.add_assoc], ?_, hnames⟩
    have hlast : parser.turn.2.endToken = parser.endToken := endToken_of_turn rfl
    rw [hsplit, ← hlast, List.append_assoc, List.getElem?_append_right (Nat.le_add_right _ _),
      Nat.add_sub_cancel_left, htoken]
  induction h with
  | done => simp
  | read _ hturn hsplit _ ih =>
    intro entry hentry
    exact hbehind hsplit (by rw [hturn]) (ih (kind_ne_eof_later hsplit hends) entry hentry)
  | @broken offset parser mid later diagnostic tokens found _ hrule hturn hsplit _ ih =>
    intro entry hentry
    rcases List.mem_cons.mp hentry with rfl | hentry
    · obtain ⟨ts, hbreaks, -⟩ := fails_statementRule hrule
      refine ⟨_, _, rfl, ?_, hbreaks.stops.names⟩
      rw [hbreaks.brokenAt_eq hends]
      exact getElem?_ahead hbreaks.front.length_le
    · exact hbehind hsplit (by rw [hturn]) (ih (kind_ne_eof_later hsplit hends) entry hentry)

end Located

/-- **Where tokens are moved, the numbers of the diagnostics stay as they are.** -/
theorem Moved.located (h : parser.Moved place other)
    (hends : ∀ token ∈ parser.ahead, token.kind ≠ .eof) (hfound : parser.Located offset found) :
    other.Located offset (found.map (Prod.map id (Diagnostic.moved place))) := by
  induction hfound generalizing other with
  | done hend => exact .done ((h.like 0).atEnd.trans hend)
  | @read offset parser later tree tokens found hend hturn hsplit hmore ih =>
    obtain ⟨last, hother, hlast⟩ := h.turn hends hturn
    have hahead : other.ahead = tokens.map (.moved place) ++ last.ahead := by
      rw [h.ahead, hsplit, List.map_append, hlast.ahead]
    refine .read ((h.like 0).atEnd.trans hend) hother hahead ?_
    rw [List.length_map]
    exact ih hlast (kind_ne_eof_later hsplit hends)
  | @broken offset parser mid later diagnostic tokens found hend hrule hturn hsplit hmore ih =>
    obtain ⟨last, hother, hlast⟩ := h.turn hends hturn
    have hahead : other.ahead = tokens.map (.moved place) ++ last.ahead := by
      rw [h.ahead, hsplit, List.map_append, hlast.ahead]
    obtain ⟨ts, hbreaks, -⟩ := fails_statementRule hrule
    obtain ⟨n, depth, -, hfails, hbroken⟩ :=
      statementRule_of_error hrule hbreaks hends (h.kind_ne_eof hends) (h.like _)
    have hmore' := ih hlast (kind_ne_eof_later hsplit hends)
    rw [← List.length_map (Token.moved place)] at hmore'
    have hlocated := Located.broken ((h.like 0).atEnd.trans hend) hfails hother hahead hmore'
    rw [hbroken, ← hbreaks.brokenAt_eq hends] at hlocated
    exact hlocated

end Parser

/-- The diagnostic stands where the token number `k` of the source starts, and no other one. -/
def Diagnostic.IsOn (source : String) (k : Nat) (diagnostic : Diagnostic) : Prop :=
  (∃ token, (tokenize source)[k]? = some token ∧ token.span.start = diagnostic.position) ∧
    ∀ (i : Nat) (another : Token), (tokenize source)[i]? = some another →
      another.span.start = diagnostic.position → i = k

/-- The diagnostics on a source are on the tokens with their numbers. -/
theorem Parser.Located.names_tokenize {source : String} {found : List (Nat × Diagnostic)}
    (h : (ofSource source).Located 0 found) :
    ∀ entry ∈ found, ∃ token, (tokenize source)[entry.1]? = some token ∧ entry.2.Names token := by
  intro entry hentry
  obtain ⟨k, token, hnumber, htoken, hnames⟩ := h.names AtTurn.start.kind_ne_eof entry hentry
  rw [hnumber, Nat.zero_add, tokenize_eq]
  exact ⟨token, htoken, hnames⟩

theorem Diagnostic.Names.isOn {source : String} {diagnostic : Diagnostic} {k : Nat} {token : Token}
    (h : diagnostic.Names token) (hsize : source.utf8ByteSize < UInt32.size)
    (htoken : (tokenize source)[k]? = some token) : diagnostic.IsOn source k :=
  ⟨⟨token, htoken, h.1.symm⟩, fun _ _ hanother hstart =>
    eq_of_start_eq hsize htoken hanother (hstart.trans h.1)⟩

end MonkeySyntax
