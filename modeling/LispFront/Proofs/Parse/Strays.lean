import LispFront.Proofs.Parse.Acceptance
import LispFront.Proofs.Parse.Transition
import LispFront.Proofs.Parse.Truncation
import LispFront.Proofs.Token.Spacing
import Mathlib.Data.List.Nodup

/-! # Stray words

A word with which no expression begins is left out, and nothing else comes of it as long
as no form is given up. Without the stray words the same text is read without a diagnostic
(`Reading.flawless_ofText_withoutStrays`). -/

namespace LispFront

namespace Diagnostic

/-- Whether no more is lost than a word. -/
def isLocal : Diagnostic → Bool
  | noExpression .. | elementDropped _ => true
  | _ => false

def strayPlace? : Diagnostic → Option Position
  | noExpression _ position => some position
  | _ => none

private theorem meetsEnd_eq_false_of_isLocal {diagnostic : Diagnostic}
    (recoverable : diagnostic.isLocal = true) : diagnostic.meetsEnd = false := by
  cases diagnostic <;> first | rfl | cases recoverable

end Diagnostic

def Mode.Reads : Mode → Prop
  | skip .. => False
  | _ => True

namespace State

variable {finished : Array Expression} {frames : List Frame} {mode : Mode} {token : Token}
  {outcome : State × List Diagnostic}

/-! ## Words -/

structure Silent (outcome : State × List Diagnostic) : Prop where
  reports : outcome.2 = []
  reads : outcome.1.mode.Reads

private theorem silent_deliver {expression : Expression} {first : Token}
    (recoverable : ∀ diagnostic ∈ (deliver finished first (some expression) frames).2,
      diagnostic.isLocal = true) :
    Silent (deliver finished first (some expression) frames) := by
  rcases frames with _ | ⟨frame, frames⟩
  · exact ⟨rfl, trivial⟩
  cases frame with
  | sequence form opening items => exact ⟨rfl, trivial⟩
  | declaration opening name =>
      cases expression with
      | array bracket elements =>
          refine ⟨List.eq_nil_iff_forall_not_mem.mpr fun diagnostic member => ?_, trivial⟩
          have localized := recoverable diagnostic member
          rcases List.mem_filterMap.mp member with ⟨element, _, problem⟩
          cases element <;> cases problem <;> cases localized
      | _ => cases recoverable _ List.mem_cons_self

theorem deliver_none_of_isLocal {first : Token}
    (recoverable : ∀ diagnostic ∈ (deliver finished first none frames).2,
      diagnostic.isLocal = true) :
    (deliver finished first none frames).1 = ⟨finished, frames, .expression⟩ ∧
      (deliver finished first none frames).2.filterMap Diagnostic.strayPlace? = [] := by
  rcases frames with _ | ⟨frame, frames⟩
  · exact ⟨rfl, rfl⟩
  cases frame with
  | sequence form opening items => exact ⟨rfl, rfl⟩
  | declaration opening name => cases recoverable _ List.mem_cons_self

theorem Transition.silent_or_stray
    (transition : Transition finished token frames mode outcome) (reads : mode.Reads)
    (recoverable : ∀ diagnostic ∈ outcome.2, diagnostic.isLocal = true) :
    Silent outcome ∨
      token.kind.begins = false ∧ outcome.1 = ⟨finished, frames, mode⟩ ∧
        outcome.2.filterMap Diagnostic.strayPlace? = [token.position] := by
  cases transition with
  | leaf => exact .inl (silent_deliver recoverable)
  | array => exact .inl ⟨rfl, trivial⟩
  | round => exact .inl ⟨rfl, trivial⟩
  | close => exact .inl (silent_deliver recoverable)
  | missing => cases recoverable _ List.mem_cons_self
  | stray strays =>
      rcases deliver_none_of_isLocal fun diagnostic member =>
        recoverable diagnostic (List.mem_cons_of_mem _ member) with ⟨same, none⟩
      exact .inr ⟨strays, same, congrArg (token.position :: ·) none⟩
  | keyword => exact .inl ⟨rfl, trivial⟩
  | call => exact .inl ⟨rfl, trivial⟩
  | name => exact .inl ⟨rfl, trivial⟩
  | reject => cases recoverable _ List.mem_cons_self
  | pass => exact reads.elim

theorem silent_or_stray_step {state : State} (reads : state.mode.Reads)
    (recoverable : ∀ diagnostic ∈ (state.step token).2, diagnostic.isLocal = true) :
    Silent (state.step token) ∨
      token.kind.begins = false ∧ (state.step token).1 = state ∧
        (state.step token).2.filterMap Diagnostic.strayPlace? = [token.position] :=
  (transition_step state.finished state.frames token state.mode).silent_or_stray
    reads recoverable

/-- The places of strays among `words`. -/
def strayPlaces (state : State) (words : List Token) : List Position :=
  (state.readAll words).2.filterMap Diagnostic.strayPlace?

theorem strayPlaces_cons (state : State) (word : Token) (words : List Token) :
    state.strayPlaces (word :: words) =
      (state.step word).2.filterMap Diagnostic.strayPlace? ++
        (state.step word).1.strayPlaces words := by
  rw [strayPlaces, readAll_cons, List.filterMap_append]
  rfl

theorem exists_word_of_mem_strayPlaces {state : State} {words : List Token}
    {place : Position} (reads : state.mode.Reads)
    (recoverable : ∀ diagnostic ∈ (state.readAll words).2, diagnostic.isLocal = true)
    (member : place ∈ state.strayPlaces words) :
    ∃ word ∈ words, word.position = place ∧ word.kind.begins = false := by
  induction words generalizing state with
  | nil => cases member
  | cons word words induction =>
      rcases List.forall_mem_append.mp recoverable with ⟨first, later⟩
      rw [strayPlaces_cons] at member
      rcases silent_or_stray_step reads first with ⟨silent, next⟩ | ⟨strays, same, places⟩
      · rw [silent] at member
        rcases induction next later member with ⟨found, listed, stands⟩
        exact ⟨found, List.mem_cons_of_mem _ listed, stands⟩
      · rw [places] at member
        rcases List.mem_cons.mp member with rfl | member
        · exact ⟨word, List.mem_cons_self, rfl, strays⟩
        · rcases induction (by rwa [same]) later member with ⟨found, listed, stands⟩
          exact ⟨found, List.mem_cons_of_mem _ listed, stands⟩

/-- Without the strays the other words are read to the same effect, and without a
report. -/
theorem readAll_filter {state : State} {words : List Token} {places : List Position}
    (reads : state.mode.Reads) (distinct : (words.map Token.position).Nodup)
    (recoverable : ∀ diagnostic ∈ (state.readAll words).2, diagnostic.isLocal = true)
    (strays : ∀ word ∈ words, word.position ∈ places ↔
      word.position ∈ state.strayPlaces words) :
    state.readAll (words.filter fun word => word.position ∉ places) =
      ((state.readAll words).1, []) := by
  induction words generalizing state with
  | nil => rfl
  | cons word words induction =>
      rcases List.forall_mem_append.mp recoverable with ⟨first, later⟩
      rcases List.forall_mem_cons.mp strays with ⟨here, elsewhere⟩
      rcases List.nodup_cons.mp distinct with ⟨alone, distinct⟩
      rw [strayPlaces_cons] at here
      simp only [strayPlaces_cons] at elsewhere
      rcases silent_or_stray_step reads first with ⟨silent, next⟩ | ⟨_, same, stray⟩
      · rw [silent] at here elsewhere
        have kept : word.position ∉ places := by
          intro member
          rcases exists_word_of_mem_strayPlaces next later (here.mp member) with
            ⟨found, listed, place, _⟩
          exact alone (place ▸ List.mem_map_of_mem listed)
        rw [List.filter_cons_of_pos (by simpa using kept), readAll_cons,
          silent, readAll_cons, induction next distinct later elsewhere]
        rfl
      · rw [stray] at here elsewhere
        rw [same] at later elsewhere
        have dropped : word.position ∈ places := here.mpr List.mem_cons_self
        rw [List.filter_cons_of_neg (by simpa using dropped), readAll_cons, same]
        refine induction reads distinct later fun found listed =>
          (elsewhere found listed).trans ?_
        have other : found.position ≠ word.position := fun equal =>
          alone (equal ▸ List.mem_map_of_mem listed)
        rw [List.singleton_append, List.mem_cons, or_iff_right other]

end State

namespace Reading

/-- The text with a space in the place of each stray. -/
def withoutStrays (source : String) : String :=
  String.ofList
    (spaceAt ((ofText source).diagnostics.filterMap Diagnostic.strayPlace?)
      .origin source.toList)

private theorem isSingle_of_begins {kind : TokenKind} (strays : kind.begins = false)
    (more : kind ≠ .endOfInput) : kind.isSingle = true := by
  cases kind <;> first | rfl | contradiction

theorem words_withoutStrays {source : String} {places : List Position}
    (stands : ∀ place ∈ places, ∃ word ∈ (Cursor.ofString source).words,
      word.position = place ∧ word.kind.begins = false) :
    (Cursor.ofString (String.ofList (spaceAt places .origin source.toList))).words =
      (Cursor.ofString source).words.filter fun word => word.position ∉ places := by
  rw [Cursor.ofString, String.toList_ofList]
  apply Cursor.words_spaceAt
  · intro place member
    rcases stands place member with ⟨word, listed, same, _⟩
    exact ⟨word, listed, same⟩
  · intro word listed member
    rcases stands word.position member with ⟨found, foundListed, same, strays⟩
    have equal : found = word :=
      List.inj_on_of_nodup_map (Cursor.ofString source).nodup_position_words
        foundListed listed same
    rw [← equal]
    exact isSingle_of_begins strays (Cursor.kind_ne_endOfInput_of_mem_words foundListed)

/-- If no more is lost than words, the text is read without a diagnostic where they are
left out, and as the same program. -/
theorem flawless_ofText_withoutStrays (source : String)
    (recoverable : ∀ diagnostic ∈ (ofText source).diagnostics,
      diagnostic.isLocal = true) :
    (ofText (withoutStrays source)).flawless = .ok (ofText source).program := by
  have misses : ∀ diagnostic ∈ (ofText source).diagnostics, diagnostic.meetsEnd = false :=
    fun diagnostic member =>
      Diagnostic.meetsEnd_eq_false_of_isLocal (recoverable diagnostic member)
  rw [ofText_eq_ofWords] at misses
  have idle :=
    (isIdle_iff_forall_meetsEnd _ fun _ => Cursor.kind_ne_endOfInput_of_mem_words).mpr
      misses
  have whole : ofText source =
      ⟨⟨(State.initial.readAll (Cursor.ofString source).words).1.finished.toList⟩,
        (State.initial.readAll (Cursor.ofString source).words).2⟩ := by
    rw [ofText_eq_ofWords, ofWords, State.close_of_isIdle _ idle, List.append_nil]
  rw [withoutStrays, whole]
  rw [whole] at recoverable
  have reads : State.initial.mode.Reads := trivial
  have words := words_withoutStrays fun place =>
    State.exists_word_of_mem_strayPlaces reads recoverable
  have read := State.readAll_filter reads
    (Cursor.ofString source).nodup_position_words recoverable (fun _ _ => Iff.rfl)
  rw [State.strayPlaces] at words read
  rw [flawless_eq_ok, ofText_eq_ofWords, words, ofWords, read,
    State.close_of_isIdle _ idle]
  exact ⟨rfl, rfl⟩

theorem flawless_ofText_withoutStrays_of_nested :
    (∀ diagnostic ∈
        (ofText ") [a.b (f : 1)]\n(fn g [x + y] \"\x7d\" \x7d z)").diagnostics,
          diagnostic.isLocal = true) ∧
      withoutStrays ") [a.b (f : 1)]\n(fn g [x + y] \"\x7d\" \x7d z)" =
        "  [a b (f   1)]\n(fn g [x   y] \"\x7d\"   z)" ∧
      (ofText "  [a b (f   1)]\n(fn g [x   y] \"\x7d\"   z)").flawless =
        .ok (ofText ") [a.b (f : 1)]\n(fn g [x + y] \"\x7d\" \x7d z)").program := by
  have recoverable :
      ∀ diagnostic ∈
        (ofText ") [a.b (f : 1)]\n(fn g [x + y] \"\x7d\" \x7d z)").diagnostics,
        diagnostic.isLocal = true := by
    decide +kernel
  have spaced : withoutStrays ") [a.b (f : 1)]\n(fn g [x + y] \"\x7d\" \x7d z)" =
      "  [a b (f   1)]\n(fn g [x   y] \"\x7d\"   z)" := by
    decide +kernel
  have read :=
    flawless_ofText_withoutStrays
      ") [a.b (f : 1)]\n(fn g [x + y] \"\x7d\" \x7d z)" recoverable
  rw [spaced] at read
  exact ⟨recoverable, spaced, read⟩

end Reading

end LispFront
