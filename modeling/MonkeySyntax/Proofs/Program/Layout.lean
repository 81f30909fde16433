import MonkeySyntax.Proofs.Grammar.Consistency
import MonkeySyntax.Proofs.Program.Places

/-!
# MonkeySyntax — reading does not depend on the layout

Two sources can have the same tokens at other places: they differ in blanks and line breaks alone.
They are read alike, whatever is wrong with them. Each of them is read as its tokens are read at no
place, and those are the same (`Parser.bare`).

* **`Program.atNoPlace`** — a program without the places of its tokens. It is printed as the program
  itself.
* **`parse_layout`** — programs, causes and the tokens of diagnostics are the same.
-/

namespace MonkeySyntax

open MonkeySyntax.Parser

/-! ## Programs at no place -/

theorem Retokening.keepsText_moved (place : Position → Position) :
    (Retokening.moved place).KeepsText :=
  fun _ _ _ => rfl

/-- The program with all its tokens, none of them at a place. -/
def Program.atNoPlace (program : Program) : Program :=
  ⟨Stmt.retokenEach (.moved fun _ => default) program.statements⟩

theorem render_atNoPlace (source : String) :
    (parse source).1.atNoPlace.render = (parse source).1.render :=
  (consistent_program source).wellFormed.render_retoken (Retokening.keepsText_moved _)

/-! ## Sources with the same tokens -/

variable {source other : String}

/-- Sources with the same kinds and texts of tokens have the same parser at no place. -/
theorem bare_eq_of_tokens
    (htokens : (tokenize source).map (fun token => (token.kind, token.literal)) =
      (tokenize other).map fun token => (token.kind, token.literal)) :
    (ofSource source).bare = (ofSource other).bare := by
  have hbare : (tokenize source).map Token.bare = (tokenize other).map Token.bare := by
    have hpair := congrArg (List.map fun pair : TokenKind × String => Token.spelled pair.1 pair.2)
      htokens
    rwa [List.map_map, List.map_map] at hpair
  rw [tokenize_eq, tokenize_eq, List.map_append, List.map_append] at hbare
  rw [bare, bare, (List.append_inj' hbare rfl).1]
  rfl

/-- The turns on such sources are the same at no place. -/
theorem Parser.Turns.moved_eq_of_bare_eq {segments others : List Segment}
    (hbare : (ofSource source).bare = (ofSource other).bare)
    (h : (ofSource source).Turns segments) (h' : (ofSource other).Turns others) :
    segments.map (Segment.moved fun _ => default) =
      others.map (Segment.moved fun _ => default) := by
  have hturns := (ofSource other).moved_bare.turns AtTurn.start.kind_ne_eof h'
  rw [← hbare] at hturns
  exact hturns.unique ((ofSource source).moved_bare.turns AtTurn.start.kind_ne_eof h)

theorem Parser.Located.moved_eq_of_bare_eq {found others : List (Nat × Diagnostic)}
    (hbare : (ofSource source).bare = (ofSource other).bare)
    (h : (ofSource source).Located 0 found) (h' : (ofSource other).Located 0 others) :
    found.map (Prod.map id (Diagnostic.moved fun _ => default)) =
      others.map (Prod.map id (Diagnostic.moved fun _ => default)) := by
  have hlocated := (ofSource other).moved_bare.located AtTurn.start.kind_ne_eof h'
  rw [← hbare] at hlocated
  exact hlocated.unique ((ofSource source).moved_bare.located AtTurn.start.kind_ne_eof h)

/-- **Reading does not depend on the layout.** Let the tokens of two sources agree in their kinds
and texts, and their places fit a word. Then the programs are the same but for the places of their
tokens, and are printed alike; the diagnostics have the same causes; and those of one number are on
tokens of one number. -/
theorem parse_layout (hsize : source.utf8ByteSize < UInt32.size)
    (hother : other.utf8ByteSize < UInt32.size)
    (htokens : (tokenize source).map (fun token => (token.kind, token.literal)) =
      (tokenize other).map fun token => (token.kind, token.literal)) :
    (parse source).1.atNoPlace = (parse other).1.atNoPlace ∧
      (parse source).1.render = (parse other).1.render ∧
      (parse source).2.map Diagnostic.cause = (parse other).2.map Diagnostic.cause ∧
      ∀ (i : Nat) (first second : Diagnostic), (parse source).2[i]? = some first →
        (parse other).2[i]? = some second →
        ∃ k, first.IsOn source k ∧ second.IsOn other k := by
  have hbare := bare_eq_of_tokens htokens
  obtain ⟨segments, hturns⟩ := exists_turns (ofSource source)
  obtain ⟨others, hturns'⟩ := exists_turns (ofSource other)
  obtain ⟨found, hlocated, hfound⟩ := hturns.exists_located 0
  obtain ⟨found', hlocated', hfound'⟩ := hturns'.exists_located 0
  have hsame := hlocated.moved_eq_of_bare_eq hbare hlocated'
  have hprogram : (parse source).1.atNoPlace = (parse other).1.atNoPlace := by
    rw [Program.atNoPlace, Program.atNoPlace, hturns.parse_eq, hturns'.parse_eq,
      Stmt.retokenEach_eq_map, Stmt.retokenEach_eq_map, ← Segment.filterMap_statement_moved,
      ← Segment.filterMap_statement_moved, hturns.moved_eq_of_bare_eq hbare hturns']
  refine ⟨hprogram, ?_, ?_, ?_⟩
  · rw [← render_atNoPlace source, hprogram, render_atNoPlace other]
  · have hdiagnostics := hturns.diagnostics_of_bare hbare AtTurn.start.kind_ne_eof
      AtTurn.start.kind_ne_eof hturns'
    have hcauses := congrArg (List.map Diagnostic.cause) hdiagnostics
    rw [List.map_map, List.map_map] at hcauses
    rw [hturns.parse_eq, hturns'.parse_eq]
    exact hcauses
  · intro i first second hfirst hsecond
    rw [hturns.parse_eq] at hfirst
    rw [hturns'.parse_eq] at hsecond
    dsimp only at hfirst hsecond
    rw [← hfound, List.getElem?_map, Option.map_eq_some_iff] at hfirst
    rw [← hfound', List.getElem?_map, Option.map_eq_some_iff] at hsecond
    obtain ⟨entry, hentry, rfl⟩ := hfirst
    obtain ⟨entry', hentry', rfl⟩ := hsecond
    -- at no place the two entries are one, and their numbers are kept
    have hnumber : entry.1 = entry'.1 := by
      have hnth := congrArg (·[i]?) hsame
      simp only [List.getElem?_map, hentry, hentry', Option.map_some, Option.some.injEq] at hnth
      exact (Prod.ext_iff.mp hnth).1
    obtain ⟨token, htoken, hnames⟩ := hlocated.names_tokenize entry (List.mem_of_getElem? hentry)
    obtain ⟨there, hthere, hnames'⟩ :=
      hlocated'.names_tokenize entry' (List.mem_of_getElem? hentry')
    refine ⟨entry.1, hnames.isOn hsize htoken, hnames'.isOn hother ?_⟩
    rw [hnumber]
    exact hthere

/-- A binding without a name and a bracket that begins nothing, in one line and in several. -/
theorem parse_layout_of_lines :
    "a;let=5; )".utf8ByteSize < UInt32.size ∧
      " a ;\n\nlet =\t5\n;\n)\n".utf8ByteSize < UInt32.size ∧
      (tokenize "a;let=5; )").map (fun token => (token.kind, token.literal)) =
        (tokenize " a ;\n\nlet =\t5\n;\n)\n").map (fun token => (token.kind, token.literal)) ∧
      (parse "a;let=5; )").1.atNoPlace = (parse " a ;\n\nlet =\t5\n;\n)\n").1.atNoPlace ∧
      (parse "a;let=5; )").1.render = (parse " a ;\n\nlet =\t5\n;\n)\n").1.render ∧
      (parse "a;let=5; )").2.map Diagnostic.cause =
        (parse " a ;\n\nlet =\t5\n;\n)\n").2.map Diagnostic.cause ∧
      ∀ (i : Nat) (first second : Diagnostic), (parse "a;let=5; )").2[i]? = some first →
        (parse " a ;\n\nlet =\t5\n;\n)\n").2[i]? = some second →
        ∃ k, first.IsOn "a;let=5; )" k ∧ second.IsOn " a ;\n\nlet =\t5\n;\n)\n" k := by
  have hsize : "a;let=5; )".utf8ByteSize < UInt32.size := by decide
  have hother : " a ;\n\nlet =\t5\n;\n)\n".utf8ByteSize < UInt32.size := by decide
  have htokens : (tokenize "a;let=5; )").map (fun token => (token.kind, token.literal)) =
      (tokenize " a ;\n\nlet =\t5\n;\n)\n").map fun token => (token.kind, token.literal) := by
    rw [tokenize_eq, tokenize_eq]
    rfl
  exact ⟨hsize, hother, htokens, parse_layout hsize hother htokens⟩

end MonkeySyntax
