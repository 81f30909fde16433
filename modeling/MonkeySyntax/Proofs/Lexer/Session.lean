import MonkeySyntax.Proofs.Lexer.Cursor

/-!
# MonkeySyntax — the lexer under requests in any order

A lexer can be asked for tokens in three ways, it can be reset, and as it is a value it can be kept
and gone back to. Whatever the order of these requests, it hands out one stream: the tokens of the
source, and the end of the input again and again.

* **`Track`** — a lexer with what it has handed out since it was new or reset.
* **`Session.run`** — a session answers requests one after the other. To go back to a track that was
  kept is to go back to what it had handed out then.
* **`Track.Faithful`** — the invariant: what is still to come are the tokens behind those that were
  handed out, and the lexer has ended exactly if the iterator has given out the end of the input.
  `Track.Faithful.handOut` is the step for one token, on which all three ways of asking rest.
-/

namespace MonkeySyntax

/-- A token that was handed out, and whether by the iterator, which ends. -/
structure Handout where
  token : Token
  iterated : Bool

/-- A lexer and what it has handed out since it was new or reset. -/
structure Track where
  lexer : Lexer
  history : List Handout

namespace Track

/-- The end of the input was given out by the iterator. -/
def Exhausted (track : Track) : Prop :=
  ∃ handout ∈ track.history, handout.iterated = true ∧ handout.token.kind = .eof

def nextToken (track : Track) : Track :=
  ⟨track.lexer.nextToken.2, track.history ++ [⟨track.lexer.nextToken.1, false⟩]⟩

def next (track : Track) : Track :=
  ⟨track.lexer.next?.2,
    track.history ++ track.lexer.next?.1.toList.map fun token => ⟨token, true⟩⟩

def collect (track : Track) : Track :=
  ⟨track.lexer.collect.2, track.history ++ track.lexer.collect.1.map fun token => ⟨token, true⟩⟩

def reset (track : Track) : Track :=
  ⟨track.lexer.reset, []⟩

end Track

/-- What a session can be asked for. -/
inductive Request where
  | nextToken
  | next
  | collect
  | reset
  /-- Keeps a copy of the lexer. -/
  | save
  /-- Goes back to a copy that was kept. -/
  | restore (index : Nat)

/-- The lexer in use and the copies that were kept, each with what it had handed out. -/
structure Session where
  track : Track
  saved : List Track

namespace Session

def ofSource (source : String) : Session :=
  ⟨⟨.ofSource source, []⟩, []⟩

def step (session : Session) : Request → Session
  | .nextToken => { session with track := session.track.nextToken }
  | .next => { session with track := session.track.next }
  | .collect => { session with track := session.track.collect }
  | .reset => { session with track := session.track.reset }
  | .save => { session with saved := session.saved ++ [session.track] }
  | .restore index => { session with track := session.saved[index]?.getD session.track }

def run (session : Session) (requests : List Request) : Session :=
  requests.foldl step session

end Session

/-! ## What a track has handed out -/

/-- The lexer of the track goes on where its history ends. -/
structure Track.Faithful (source : String) (track : Track) : Prop where
  coherent : track.lexer.Coherent
  source_eq : track.lexer.source = (Lexer.ofSource source).source
  pending_eq : track.lexer.pending = (Lexer.ofSource source).pending.drop track.history.length
  history_eq : ∀ k handout, track.history[k]? = some handout →
    (tokenize source)[min k (Lexer.ofSource source).pending.length]? = some handout.token
  ended_iff : track.lexer.ended = true ↔ track.Exhausted

namespace Track.Faithful

variable {source : String} {track : Track}

theorem ofSource (source : String) : Faithful source ⟨.ofSource source, []⟩ where
  coherent := Lexer.coherent_ofSource source
  source_eq := rfl
  pending_eq := rfl
  history_eq := by simp
  ended_iff := by simp [Exhausted, Lexer.ofSource, Lexer.readByte]

theorem endToken_eq (h : track.Faithful source) :
    track.lexer.endToken = .endOfInput source.utf8ByteSize := by
  rw [Lexer.endToken, h.source_eq]
  rfl

/-- The tokens from the next one on, the end of the input included. -/
theorem pending_append_endToken (h : track.Faithful source) :
    track.lexer.pending ++ [track.lexer.endToken] =
      (tokenize source).drop (min track.history.length (Lexer.ofSource source).pending.length) := by
  have hdrop : (Lexer.ofSource source).pending.drop
        (min track.history.length (Lexer.ofSource source).pending.length) =
      (Lexer.ofSource source).pending.drop track.history.length := by
    rcases Nat.le_total track.history.length (Lexer.ofSource source).pending.length with hle | hle
    · rw [Nat.min_eq_left hle]
    · rw [Nat.min_eq_right hle, List.drop_length, List.drop_eq_nil_of_le hle]
  rw [tokenize_eq_pending, List.drop_append_of_le_length (Nat.min_le_right _ _), hdrop,
    h.pending_eq, h.endToken_eq]
  rfl

/-- The next token is the one of the source at the number of those that were handed out. -/
theorem nextToken_eq (h : track.Faithful source) :
    (tokenize source)[min track.history.length (Lexer.ofSource source).pending.length]? =
      some track.lexer.nextToken.1 := by
  rw [← List.head?_drop, ← h.pending_append_endToken]
  exact h.coherent.head?_pending

/-- **One more token.** Whoever asks for it, the history goes on with the token of the source. -/
theorem handOut (h : track.Faithful source) {ended iterated : Bool}
    (hended : ended = true ↔
      track.lexer.ended = true ∨ iterated = true ∧ track.lexer.nextToken.1.kind = .eof) :
    Faithful source ⟨{ track.lexer.nextToken.2 with ended },
      track.history ++ [⟨track.lexer.nextToken.1, iterated⟩]⟩ := by
  obtain ⟨stop, hstop, hnext⟩ := h.coherent.exists_seek_nextToken
  have hcoherent : track.lexer.nextToken.2.Coherent := hnext ▸ Lexer.coherent_seek hstop
  constructor
  case coherent => exact ⟨hcoherent.position_le, hcoherent.readPosition, hcoherent.held⟩
  case source_eq =>
    show track.lexer.nextToken.2.source = _
    rw [hnext]
    exact h.source_eq
  case pending_eq =>
    show track.lexer.nextToken.2.pending = _
    rw [h.coherent.pending_nextToken, h.pending_eq, List.tail_drop, List.length_append]
    rfl
  case history_eq =>
    intro k handout hk
    rcases Nat.lt_or_ge k track.history.length with hlt | hge
    · rw [List.getElem?_append_left hlt] at hk
      exact h.history_eq k handout hk
    · -- the only place behind the history is that of the new token
      rw [List.getElem?_append_right hge, List.getElem?_singleton] at hk
      split at hk
      · next hzero =>
        obtain rfl : k = track.history.length :=
          Nat.le_antisymm (Nat.sub_eq_zero_iff_le.mp hzero) hge
        cases hk
        exact h.nextToken_eq
      · exact absurd hk.symm (Option.some_ne_none _)
  case ended_iff =>
    rw [hended, h.ended_iff]
    simp only [Exhausted, List.mem_append, List.mem_singleton, or_and_right, exists_or,
      exists_eq_left]

theorem nextToken (h : track.Faithful source) : track.nextToken.Faithful source := by
  obtain ⟨stop, -, hnext⟩ := h.coherent.exists_seek_nextToken
  have hended : track.lexer.nextToken.2.ended = track.lexer.ended := by rw [hnext]; rfl
  exact h.handOut (by simp [hended])

/-- A token that the iterator gives. -/
theorem next?_some (h : track.Faithful source) {token : Token} {later : Lexer}
    (hnext : track.lexer.next? = (some token, later)) :
    Faithful source ⟨later, track.history ++ [⟨token, true⟩]⟩ := by
  cases hended : track.lexer.ended with
  | true =>
    rw [Lexer.next?_of_ended hended] at hnext
    exact absurd (congrArg Prod.fst hnext).symm (Option.some_ne_none _)
  | false =>
    rw [h.coherent.next?_eq hended] at hnext
    cases hnext
    exact h.handOut (by simp [hended])

theorem next (h : track.Faithful source) : track.next.Faithful source := by
  rw [Track.next]
  cases hnext : track.lexer.next? with
  | mk token? later =>
    cases token? with
    | none =>
      obtain rfl := Lexer.eq_of_next?_eq_none hnext
      simpa using h
    | some token => exact h.next?_some hnext

/-- All the tokens that the iterator gives until it gives none. -/
theorem drains {lexer later : Lexer} {tokens : List Token} (hdrains : lexer.Drains tokens later)
    {history : List Handout} (h : Faithful source ⟨lexer, history⟩) :
    Faithful source ⟨later, history ++ tokens.map fun token => ⟨token, true⟩⟩ := by
  induction hdrains generalizing history with
  | nil hnext =>
    obtain rfl := Lexer.eq_of_next?_eq_none hnext
    simpa using h
  | cons hnext hrest ih => simpa using ih (h.next?_some hnext)

theorem collect (h : track.Faithful source) : track.collect.Faithful source :=
  drains h.coherent.drains_collect h

theorem reset_eq (h : track.Faithful source) : track.lexer.reset = .ofSource source := by
  rw [Lexer.reset, h.source_eq]
  rfl

theorem reset (h : track.Faithful source) : track.reset.Faithful source := by
  rw [Track.reset, h.reset_eq]
  exact ofSource source

/-- The iterator has nothing to give exactly if it has given the end of the input. -/
theorem next?_eq_none_iff (h : track.Faithful source) :
    track.lexer.next?.1 = none ↔ track.Exhausted := by
  rw [← h.ended_iff]
  cases hended : track.lexer.ended with
  | true => simp [Lexer.next?_of_ended hended]
  | false => simp [h.coherent.next?_eq hended]

/-- To collect gives the tokens from the next one on, unless the iterator has ended. -/
theorem collect_eq (h : track.Faithful source) :
    (track.Exhausted → track.lexer.collect.1 = []) ∧
      (¬ track.Exhausted → track.lexer.collect.1 = (tokenize source).drop
        (min track.history.length (Lexer.ofSource source).pending.length)) := by
  rw [← h.ended_iff, Bool.not_eq_true]
  refine ⟨fun hended => ?_, fun hended => ?_⟩
  · rw [Lexer.collect_of_ended hended]
  · rw [h.coherent.collect_eq hended, h.pending_append_endToken]

end Track.Faithful

/-! ## Sessions -/

/-- The lexer in use and all copies go on where their histories end. -/
structure Session.Faithful (source : String) (session : Session) : Prop where
  track : session.track.Faithful source
  saved : ∀ track ∈ session.saved, track.Faithful source

namespace Session.Faithful

variable {source : String} {session : Session}

theorem ofSource (source : String) : Faithful source (.ofSource source) :=
  ⟨.ofSource source, fun _ htrack => absurd htrack List.not_mem_nil⟩

/-- **One request.** -/
theorem step (h : session.Faithful source) (request : Request) :
    (session.step request).Faithful source := by
  cases request with
  | nextToken => exact ⟨h.track.nextToken, h.saved⟩
  | next => exact ⟨h.track.next, h.saved⟩
  | collect => exact ⟨h.track.collect, h.saved⟩
  | reset => exact ⟨h.track.reset, h.saved⟩
  | save =>
    refine ⟨h.track, ?_⟩
    intro track htrack
    rcases List.mem_append.mp htrack with htrack | htrack
    · exact h.saved track htrack
    · exact List.mem_singleton.mp htrack ▸ h.track
  | restore index =>
    refine ⟨?_, h.saved⟩
    show ((session.saved[index]?).getD session.track).Faithful source
    cases hsaved : session.saved[index]? with
    | none => exact h.track
    | some track => exact h.saved track (List.mem_of_getElem? hsaved)

/-- **All requests.** -/
theorem run (h : session.Faithful source) (requests : List Request) :
    (session.run requests).Faithful source := by
  induction requests generalizing session with
  | nil => exact h
  | cons request requests ih => exact ih (h.step request)

end Session.Faithful

/-- **The lexer is one stream under any requests.** Whatever is asked of a lexer, and in whatever
order, the token that was handed out as number `k` since it was new or reset is number `k` of the
source, or the end of the input behind these. The iterator gives nothing exactly if it has given the
end of the input. To collect comes to an end; it gives the tokens from the next one on, the end of
the input once and last, or none if the iterator has ended. A lexer that is reset is a new one. It
stands within the source, and it reads next the byte behind that at which it stands. -/
theorem session_is_one_stream (source : String) :
    ∃ tokens, tokenize source = tokens ++ [.endOfInput source.utf8ByteSize] ∧
      (∀ token ∈ tokens, token.kind ≠ .eof) ∧
      ∀ requests : List Request,
        let track := ((Session.ofSource source).run requests).track
        (∀ k handout, track.history[k]? = some handout →
          (tokenize source)[min k tokens.length]? = some handout.token) ∧
        (track.lexer.next?.1 = none ↔ track.Exhausted) ∧
        track.lexer.Drains track.lexer.collect.1 track.lexer.collect.2 ∧
        (track.Exhausted → track.lexer.collect.1 = []) ∧
        (¬ track.Exhausted → track.lexer.collect.1 =
          (tokenize source).drop (min track.history.length tokens.length)) ∧
        track.lexer.reset = .ofSource source ∧
        track.lexer.readPosition = track.lexer.position + 1 ∧
        track.lexer.position ≤ source.utf8ByteSize := by
  refine ⟨_, tokenize_eq_pending source, fun token => Lexer.kind_ne_eof_of_mem_pending, ?_⟩
  intro requests track
  have h : track.Faithful source := ((Session.Faithful.ofSource source).run requests).track
  refine ⟨h.history_eq, h.next?_eq_none_iff, h.coherent.drains_collect, h.collect_eq.1,
    h.collect_eq.2, h.reset_eq, h.coherent.readPosition, ?_⟩
  have hposition := h.coherent.position_le
  rw [h.source_eq] at hposition
  exact hposition

end MonkeySyntax
