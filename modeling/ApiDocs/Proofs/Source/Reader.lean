import ApiDocs.Source.Grammar.Type

/-!
# What readers read

`Reads` says that a reader takes certain tokens off the front and what it gives for them. Its rules
follow the way readers are put together, so that a grammar rule is followed token by token without
unfolding the cursor.
-/

namespace ApiDocs.Source

/-- From `tokens` the reader gives `result` and leaves `rest`, and it spoils nothing. -/
def Reads {α : Type} (reader : Reader α) (tokens rest : List Token) (result : α) : Prop :=
  ∀ cursor : Cursor, cursor.rest = tokens →
    ∃ after, reader cursor = some (result, after) ∧ after.rest = rest ∧
      after.spoiled = cursor.spoiled

namespace Reads

variable {α β σ : Type} {tokens between rest : List Token}

theorem pure (result : α) : Reads (Pure.pure result) tokens tokens result :=
  fun cursor same => ⟨cursor, rfl, same, rfl⟩

/-- One reader after the other takes the tokens that the first one leaves. -/
theorem bind {first : Reader α} {next : α → Reader β} {value : α} {result : β}
    (onFirst : Reads first tokens between value) (onNext : Reads (next value) between rest result) :
    Reads (first >>= next) tokens rest result := by
  intro cursor same
  obtain ⟨middle, ranFirst, left, kept⟩ := onFirst cursor same
  obtain ⟨after, ranNext, ends, still⟩ := onNext middle left
  refine ⟨after, ?_, ends, still.trans kept⟩
  change (first cursor).bind (fun pair => next pair.1 pair.2) = _
  rw [ranFirst]
  exact ranNext

/-- Looking at the cursor takes nothing. -/
theorem get {next : Cursor → Reader β} {result : β}
    (onNext : ∀ cursor : Cursor, cursor.rest = tokens → Reads (next cursor) tokens rest result) :
    Reads (MonadState.get >>= next) tokens rest result :=
  fun cursor same => onNext cursor same cursor same

/-- Looking ahead takes nothing and tells what the test says of all that is left. -/
theorem ahead (test : List Token → Bool) :
    Reads (Reader.ahead test) tokens tokens (test tokens) := by
  intro cursor same
  exact ⟨cursor, by rw [← same]; rfl, same, rfl⟩

theorem second (test : List Token → Bool) :
    Reads (Reader.second test) tokens tokens (test (tokens.drop 1)) := by
  intro cursor same
  exact ⟨cursor, by rw [← same]; rfl, same, rfl⟩

theorem third (test : List Token → Bool) :
    Reads (Reader.third test) tokens tokens (test (tokens.drop 2)) := by
  intro cursor same
  exact ⟨cursor, by rw [← same]; rfl, same, rfl⟩

/-- Tokens are taken as one if there are that many. -/
theorem takeAs {count : Nat} {text : String} {last : Token}
    (taken : (tokens.take count).getLast? = some last) :
    Reads (Reader.takeAs count text) tokens (tokens.drop count) () := by
  intro cursor same
  subst same
  refine ⟨{ cursor with
    rest := cursor.rest.drop count
    taken := .word text false :: cursor.taken
    stop := last.stop }, ?_, rfl, rfl⟩
  unfold Reader.takeAs
  dsimp only [Bind.bind, StateT.bind, MonadState.get, getThe, MonadStateOf.get, StateT.get,
    Pure.pure, Option.bind]
  rw [taken]
  rfl

/-- A sign that does not come next is not taken. -/
theorem not_punct? {op : String} (absent : Ahead.punct op tokens = false) :
    Reads (Reader.punct? op) tokens tokens false := by
  refine .bind (.ahead _) ?_
  rw [absent]
  exact .pure false

/-- A sign that comes next is taken, with as many tokens as it has characters. -/
theorem punct? {op : String} {last : Token} (present : Ahead.punct op tokens = true)
    (taken : (tokens.take op.length).getLast? = some last) :
    Reads (Reader.punct? op) tokens (tokens.drop op.length) true := by
  refine .bind (.ahead _) ?_
  rw [present]
  exact .bind (.takeAs taken) (.pure true)

theorem punct {op : String} {last : Token} (present : Ahead.punct op tokens = true)
    (taken : (tokens.take op.length).getLast? = some last) :
    Reads (Reader.punct op) tokens (tokens.drop op.length) () :=
  .bind (.punct? present taken) (.pure ())

theorem not_word? {text : String} (absent : Ahead.word text tokens = false) :
    Reads (Reader.word? text) tokens tokens false := by
  refine .bind (.ahead _) ?_
  rw [absent]
  exact .pure false

theorem anyIdent (name : String) (raw : Bool) (stop : Position) :
    Reads Reader.anyIdent (.ident name raw stop :: rest) rest (name, raw) := by
  refine .get fun cursor same => ?_
  have taken : ((Token.ident name raw stop :: rest).take 1).getLast? =
      some (.ident name raw stop) := rfl
  rw [same]
  exact .bind (.takeAs taken) (.pure _)

/-- An identifier that is no keyword is read as it is spelled. -/
theorem rawIdent {name : String} {raw : Bool} {stop : Position}
    (plain : Ahead.ident (.ident name raw stop :: rest) = true) :
    Reads Reader.rawIdent (.ident name raw stop :: rest) rest (name, raw) := by
  refine .bind (.ahead _) ?_
  rw [plain]
  exact .anyIdent name raw stop

/-! ## Choices -/

section Choices

variable {test : List Token → Bool} {chosen other : Reader α} {result : α}

theorem ifTrue {choice : Bool} (holds : choice = true) (reads : Reads chosen tokens rest result) :
    Reads (if choice = true then chosen else other) tokens rest result := by
  rw [if_pos holds]
  exact reads

theorem ifFalse {choice : Bool} (fails : choice = false) (reads : Reads other tokens rest result) :
    Reads (if choice = true then chosen else other) tokens rest result := by
  rw [if_neg (by simp [fails])]
  exact reads

/-- What comes next decides which reader goes on. -/
theorem ifAhead (comes : test tokens = true) (reads : Reads chosen tokens rest result) :
    Reads (Reader.ahead test >>= fun comes => if comes = true then chosen else other) tokens rest
      result :=
  .bind (.ahead test) (.ifTrue comes reads)

theorem ifNotAhead (absent : test tokens = false) (reads : Reads other tokens rest result) :
    Reads (Reader.ahead test >>= fun comes => if comes = true then chosen else other) tokens rest
      result :=
  .bind (.ahead test) (.ifFalse absent reads)

theorem ifNotPunct {op : String} (absent : Ahead.punct op tokens = false)
    (reads : Reads other tokens rest result) :
    Reads (Reader.punct? op >>= fun taken => if taken = true then chosen else other) tokens rest
      result :=
  .bind (.not_punct? absent) (.ifFalse rfl reads)

end Choices

/-! ## Loops -/

section Loops

variable {state later : σ} {step : σ → Reader (Loop σ α)} {bound : Nat} {result : α}

/-- A loop ends as soon as a step is done. -/
theorem done (ends : Reads (step state) tokens rest (.done result)) :
    Reads (Loop.upTo step (bound + 1) state) tokens rest result :=
  .bind ends (.pure result)

/-- A loop goes on with what a step leaves, with one step less to take. -/
theorem next (goes : Reads (step state) tokens between (.next later))
    (onward : Reads (Loop.upTo step bound later) between rest result) :
    Reads (Loop.upTo step (bound + 1) state) tokens rest result :=
  .bind goes onward

/-- A loop may go round more often than there are tokens. -/
theorem loop (rounds : ∀ bound, tokens.length < bound →
    Reads (Loop.upTo step bound state) tokens rest result) :
    Reads (Reader.loop state step) tokens rest result := by
  refine .get fun cursor same => ?_
  rw [same]
  exact rounds _ (by omega)

end Loops

/-- A reader that takes all tokens has read them. -/
theorem runAll? {reader : Reader α} {result : α} (reads : Reads reader tokens [] result) :
    Reader.runAll? reader tokens = some result := by
  obtain ⟨after, ran, ends, kept⟩ := reads { rest := tokens } rfl
  unfold Reader.runAll?
  rw [ran]
  change (if (after.rest.isEmpty && !after.spoiled) = true then some result else none) = _
  rw [ends, kept]
  rfl

end Reads

end ApiDocs.Source
